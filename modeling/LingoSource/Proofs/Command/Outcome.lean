import LingoSource.Command.Run
import LingoSource.Proofs.Chunk.Image
import LingoSource.Proofs.Command.Directory

/-!
What a command leaves behind. Whatever is read and logged on the way, a run either gives the whole text to one
place, or ends with another exit code and leaves everything as it was.
-/
set_option autoImplicit false

namespace LingoSource

namespace Action

variable {α β : Type}

theorem run_bind (a : Action α) (f : α → Action β) (s : Session) :
    (a >>= f).run s = (f (a.run s).1).run (a.run s).2 :=
  run_andThen a f s

theorem run_locate (s : Session) : Action.locate.run s = (s.host.locate, s) := rfl

theorem run_inspect (path : String) (s : Session) :
    (Action.inspect path).run s = (s.host.inspect s.directory path, s) := rfl

theorem run_read (path : String) (s : Session) :
    (Action.read path).run s = (s.host.read s.directory path, s) := rfl

theorem run_write_ok {path text : String} {s : Session} {d : Directory}
    (h : s.host.write s.directory path text.toUTF8.data = .ok d) :
    (Action.write path text).run s = (.ok (), { s with directory := d }) := by
  unfold Action.write Action.run
  rw [h]
  rfl

theorem run_write_error {path text : String} {s : Session} {e : FileError}
    (h : s.host.write s.directory path text.toUTF8.data = .error e) :
    (Action.write path text).run s = (.error e, s) := by
  unfold Action.write Action.run
  rw [h]
  rfl

end Action

structure Session.SameButLog (s s' : Session) : Prop where
  directory_eq : s'.directory = s.directory
  host_eq : s'.host = s.host
  printed_eq : s'.printed = s.printed

theorem Session.SameButLog.trans {s s' s'' : Session} (h : s.SameButLog s') (h' : s'.SameButLog s'') :
    s.SameButLog s'' where
  directory_eq := h'.directory_eq.trans h.directory_eq
  host_eq := h'.host_eq.trans h.host_eq
  printed_eq := h'.printed_eq.trans h.printed_eq

theorem Action.sameButLog_report (f : LogFilter) (entries : List LogEntry) (s : Session) :
    s.SameButLog ((report f entries).run s).2 := by
  induction entries generalizing s with
  | nil => exact ⟨rfl, rfl, rfl⟩
  | cons entry rest ih =>
    unfold report
    split
    · exact ⟨(ih _).directory_eq, (ih _).host_eq, (ih _).printed_eq⟩
    · exact ih s

namespace Environment

variable {env env' : Environment} {line : List Char} {rest : List (List Char)} {name value : String}

/-- Whether lines set a variable to a value with a null character, before any that is not understood. -/
inductive MeetsNull : Environment → List (List Char) → Prop
  | here {env : Environment} {line : List Char} {rest : List (List Char)} {name value : String} :
    env.setting? (trimStart (trimEnd line)) = some (name, value) → env.get? name = none →
    '\x00' ∈ value.toList → MeetsNull env (line :: rest)
  | further {env env' : Environment} {line : List Char} {rest : List (List Char)} :
    env.addLine line = .ok env' → MeetsNull env' rest → MeetsNull env (line :: rest)

theorem supply_eq_nullCharacter_iff :
    env.supply name value = .error .nullCharacter ↔ env.get? name = none ∧ '\x00' ∈ value.toList := by
  unfold supply
  cases env.get? name with
  | some _ => simp
  | none =>
    by_cases hnull : '\x00' ∈ value.toList <;> simp [hnull]

theorem addLine_of_setting? (h : env.setting? (trimStart (trimEnd line)) = some (name, value)) :
    env.addLine line = env.supply name value := by
  unfold addLine
  split
  · rename_i hempty
    rw [hempty] at h
    cases h
  · rename_i hcomment
    rw [hcomment] at h
    cases h
  · rw [h]

theorem exists_setting?_of_addLine (h : env.addLine line = .error .nullCharacter) :
    ∃ name value, env.setting? (trimStart (trimEnd line)) = some (name, value) := by
  unfold addLine at h
  split at h
  · cases h
  · cases h
  · cases hsetting : env.setting? (trimStart (trimEnd line)) with
    | none =>
      rw [hsetting] at h
      cases h
    | some setting => exact ⟨setting.1, setting.2, rfl⟩

theorem addLines_eq_none_iff (env : Environment) (lines : List (List Char)) :
    env.addLines lines = none ↔ env.MeetsNull lines := by
  induction lines generalizing env with
  | nil => exact iff_of_false (fun h => by cases h) (fun h => by cases h)
  | cons line rest ih =>
    constructor
    · intro h
      unfold addLines at h
      split at h
      · rename_i env' hline
        exact .further hline ((ih env').1 h)
      · cases h
      · rename_i hline
        obtain ⟨name, value, hsetting⟩ := exists_setting?_of_addLine hline
        rw [addLine_of_setting? hsetting] at hline
        obtain ⟨hnew, hnull⟩ := supply_eq_nullCharacter_iff.1 hline
        exact .here hsetting hnew hnull
    · intro h
      unfold addLines
      cases h with
      | here hsetting hnew hnull =>
        rw [addLine_of_setting? hsetting, supply_eq_nullCharacter_iff.2 ⟨hnew, hnull⟩]
      | further hline hrest =>
        rw [hline]
        exact (ih _).2 hrest

end Environment

namespace Command

section Environment

def passes : Except FileError Bool → Bool
  | .ok found => !found
  | .error e => e = .missing

def foundFile? (host : Host) (d : Directory) (paths : List String) : Option String :=
  (paths.find? fun path => !passes (host.inspect d path)).filter fun path => (host.inspect d path).isOk

/-- The path of the file for the environment that is closest to the directory. -/
def environmentPath? (host : Host) (d : Directory) : Option String :=
  host.locate.toOption.bind fun location => foundFile? host d (Path.upwards environmentFile location)

def environmentFile? (host : Host) (d : Directory) : Option Bytes :=
  (environmentPath? host d).bind fun path => usable? (host.read d path)

/-- The environment with what that file adds, if variables can have the values it sets. -/
def environmentIn? (host : Host) (env : Environment) (d : Directory) : Option Environment :=
  (environmentFile? host d).elim (some env) env.load

def environmentIn (host : Host) (env : Environment) (d : Directory) : Environment :=
  (environmentIn? host env d).getD env

theorem run_findFile (paths : List String) (s : Session) :
    (findFile paths).run s = (foundFile? s.host s.directory paths, s) := by
  induction paths with
  | nil => rfl
  | cons path rest ih =>
    unfold findFile
    rw [Action.run_bind, Action.run_inspect]
    unfold foundFile? at ih ⊢
    cases hlook : s.host.inspect s.directory path with
    | ok found =>
      cases found with
      | true =>
        rw [List.find?_cons_of_pos (by rw [hlook]; rfl)]
        simp only [Option.filter_some, hlook]
        rfl
      | false =>
        rw [List.find?_cons_of_neg (by rw [hlook]; decide)]
        exact ih
    | error e =>
      by_cases he : e = .missing
      · subst he
        rw [List.find?_cons_of_neg (by rw [hlook]; decide)]
        exact ih
      · rw [List.find?_cons_of_pos (by simp [hlook, passes, he])]
        simp only [Option.filter_some, hlook]
        cases e <;> rfl

theorem run_loadEnvironment (env : Environment) (s : Session) :
    (loadEnvironment env).run s = (environmentIn? s.host env s.directory, s) := by
  unfold loadEnvironment environmentIn? environmentFile? environmentPath?
  rw [Action.run_bind, Action.run_locate]
  cases s.host.locate with
  | error e => rfl
  | ok location =>
    dsimp only
    rw [Action.run_bind, run_findFile]
    dsimp only [Except.toOption]
    rw [Option.bind_some]
    cases foundFile? s.host s.directory (Path.upwards environmentFile location) with
    | none => rfl
    | some path =>
      dsimp only
      rw [Action.run_bind, Action.run_read, Option.bind_some]
      dsimp only
      cases usable? (s.host.read s.directory path) <;> rfl

/-- Whether the closest file for an environment sets a variable to a value with a null character. -/
def SetsNull (host : Host) (env : Environment) (d : Directory) : Prop :=
  ∃ file, environmentFile? host d = some file ∧ env.MeetsNull (Environment.lines file)

theorem environmentIn?_eq_none_iff (host : Host) (env : Environment) (d : Directory) :
    environmentIn? host env d = none ↔ SetsNull host env d := by
  unfold environmentIn? SetsNull
  cases environmentFile? host d with
  | none => simp
  | some file =>
    simp only [Option.elim_some, Option.some.injEq, exists_eq_left']
    exact env.addLines_eq_none_iff _

end Environment

section Settings

def settingsIn? (host : Host) (d : Directory) (path : String) : Option Settings := do
  let content ← (host.read d path).toOption
  let document ← String.fromUTF8? ⟨content⟩
  Settings.ofToml document

/-- The settings in force, if they can be loaded: those of the file in the arguments, else of the file in the
environment, else the defaults, with what the arguments say in their place. -/
def settings? (host : Host) (env : Environment) (d : Directory) (a : Arguments) : Option Settings :=
  ((a.settings.or (env.get? settingsVariable)).elim (some {}) (settingsIn? host d)).map (override a)

theorem run_readSettings (path : String) (s : Session) :
    ∃ r, (readSettings path).run s = (r, s) ∧ r.toOption = settingsIn? s.host s.directory path := by
  unfold readSettings settingsIn?
  rw [Action.run_bind, Action.run_read]
  cases s.host.read s.directory path with
  | error e => exact ⟨_, rfl, rfl⟩
  | ok content =>
    dsimp only [Except.toOption, bind, Option.bind]
    cases String.fromUTF8? ⟨content⟩ with
    | none => exact ⟨_, rfl, rfl⟩
    | some document =>
      dsimp only
      cases Settings.ofToml document with
      | none => exact ⟨_, rfl, rfl⟩
      | some settings => exact ⟨_, rfl, rfl⟩

theorem run_loadSettings (env : Environment) (a : Arguments) (s : Session) :
    ∃ r, (loadSettings env a).run s = (r, s) ∧ r.toOption = settings? s.host env s.directory a := by
  unfold loadSettings settings?
  dsimp only
  cases a.settings with
  | some path =>
    obtain ⟨r, hrun, hr⟩ := run_readSettings path s
    refine ⟨r.map (override a), ?_, ?_⟩
    · dsimp only
      rw [Action.run_bind, hrun]
      rfl
    · dsimp only [Option.or, Option.elim]
      rw [← hr]
      cases r <;> rfl
  | none =>
    cases env.get? settingsVariable with
    | some path =>
      obtain ⟨r, hrun, hr⟩ := run_readSettings path s
      refine ⟨(r.mapError .namedSettings).map (override a), ?_, ?_⟩
      · dsimp only
        rw [Action.run_bind, Action.run_bind, hrun]
        rfl
      · dsimp only [Option.or, Option.elim]
        rw [← hr]
        cases r <;> rfl
    | none => exact ⟨_, rfl, rfl⟩

end Settings

/-- The text that a script has under some settings, if both files can be read and the script is recovered. -/
def sourceWith? (settings : Settings) (host : Host) (d : Directory) (a : Arguments) : Option String := do
  let names ← (host.read d a.names).toOption
  let script ← (host.read d a.script).toOption
  let tree ← (settings.recover names script).toOption
  return settings.render tree

def source? (host : Host) (env : Environment) (d : Directory) (a : Arguments) : Option String :=
  (settings? host env d a).bind fun settings => sourceWith? settings host d a

/-- How a command ends that was started in a directory and has a text to give, or none: whether all went
well, and what is left. -/
inductive Ends (host : Host) (d : Directory) (a : Arguments) : Option String → Bool → Session → Prop
  | printed {text : String} {s : Session} : a.output = none → s.directory = d → s.printed = text →
    Ends host d a (some text) true s
  | written {text path : String} {s : Session} : a.output = some path →
    host.write d path text.toUTF8.data = .ok s.directory → s.printed = "" →
    Ends host d a (some text) true s
  | unwritable {text path : String} {e : FileError} {s : Session} : a.output = some path →
    host.write d path text.toUTF8.data = .error e → s.directory = d → s.printed = "" →
    Ends host d a (some text) false s
  | nothing {s : Session} : s.directory = d → s.printed = "" → Ends host d a none false s

variable {a : Arguments} {s s' : Session}

namespace Ends

variable {host : Host} {d : Directory} {text? : Option String} {text : String} {ok : Bool}

theorem sameButLog (h : Ends host d a text? ok s) (hlog : s.SameButLog s') :
    Ends host d a text? ok s' := by
  obtain ⟨hdirectory, -, hprinted⟩ := hlog
  cases h with
  | printed houtput hd hp => exact .printed houtput (hdirectory.trans hd) (hprinted.trans hp)
  | written houtput hwrite hp => exact .written houtput (hdirectory ▸ hwrite) (hprinted.trans hp)
  | unwritable houtput hwrite hd hp =>
    exact .unwritable houtput hwrite (hdirectory.trans hd) (hprinted.trans hp)
  | nothing hd hp => exact .nothing (hdirectory.trans hd) (hprinted.trans hp)

theorem ok_iff (h : Ends host d a text? ok s) : ok = true ↔ ∃ text, text? = some text ∧
    ∀ path, a.output = some path → ∃ d', host.write d path text.toUTF8.data = .ok d' := by
  cases h with
  | @printed text _ houtput _ _ =>
    refine iff_of_true rfl ⟨text, rfl, fun path hpath => ?_⟩
    rw [houtput] at hpath
    cases hpath
  | @written text _ _ houtput hwrite _ =>
    refine iff_of_true rfl ⟨text, rfl, fun path hpath => ?_⟩
    rw [houtput] at hpath
    cases hpath
    exact ⟨_, hwrite⟩
  | @unwritable _ path _ _ houtput hwrite _ _ =>
    refine iff_of_false Bool.false_ne_true ?_
    rintro ⟨_, htext, hall⟩
    cases htext
    obtain ⟨d', hd'⟩ := hall path houtput
    rw [hwrite] at hd'
    cases hd'
  | nothing _ _ =>
    refine iff_of_false Bool.false_ne_true ?_
    rintro ⟨_, htext, -⟩
    cases htext

theorem delivered (h : Ends host d a (some text) true s) :
    (a.output = none → s.printed = text ∧ s.directory = d) ∧
      ∀ path, a.output = some path →
        s.printed = "" ∧ d.Replaced s.directory host.location path text.toUTF8.data := by
  cases h with
  | printed houtput hdirectory hprinted =>
    refine ⟨fun _ => ⟨hprinted, hdirectory⟩, fun path hpath => ?_⟩
    rw [houtput] at hpath
    cases hpath
  | written houtput hwrite hprinted =>
    refine ⟨fun hnone => ?_, fun path hpath => ?_⟩
    · rw [houtput] at hnone
      cases hnone
    · rw [houtput] at hpath
      cases hpath
      exact ⟨hprinted, Host.replaced_of_write hwrite⟩

theorem unchanged (h : Ends host d a text? false s) : s.printed = "" ∧ s.directory = d := by
  cases h with
  | unwritable _ _ hdirectory hprinted => exact ⟨hprinted, hdirectory⟩
  | nothing hdirectory hprinted => exact ⟨hprinted, hdirectory⟩

end Ends

theorem ends_deliver (hs : s.printed = "") (text : String) :
    Ends s.host s.directory a (some text) ((deliver a text).run s).1.isOk
      ((deliver a text).run s).2 := by
  unfold deliver
  cases houtput : a.output with
  | none =>
    refine .printed houtput rfl ?_
    show s.printed ++ text = text
    rw [hs, String.empty_append]
  | some path =>
    dsimp only
    rw [Action.run_bind]
    cases hwrite : s.host.write s.directory path text.toUTF8.data with
    | ok d =>
      rw [Action.run_write_ok hwrite]
      exact .written houtput hwrite hs
    | error e =>
      rw [Action.run_write_error hwrite]
      exact .unwritable houtput hwrite rfl hs

theorem ends_decompile (hs : s.printed = "") (f : LogFilter) (settings : Settings) (a : Arguments) :
    Ends s.host s.directory a (sourceWith? settings s.host s.directory a)
      ((decompile f settings a).run s).1.isOk ((decompile f settings a).run s).2 := by
  unfold decompile sourceWith?
  rw [Action.run_bind, Action.run_read]
  cases s.host.read s.directory a.names with
  | error e => exact .nothing rfl hs
  | ok names =>
    dsimp only [Except.toOption]
    rw [Option.bind_eq_bind, Option.bind_some, Action.run_bind, Action.run_read]
    cases s.host.read s.directory a.script with
    | error e => exact .nothing rfl hs
    | ok script =>
      dsimp only
      rw [Option.bind_eq_bind, Option.bind_some, Action.run_bind]
      have hlog := Action.sameButLog_report f (remarks names script) s
      generalize ((Action.report f (remarks names script)).run s).2 = before at hlog ⊢
      cases settings.recover names script with
      | error e => exact .nothing hlog.directory_eq (hlog.printed_eq.trans hs)
      | ok tree =>
        dsimp only
        rw [Action.run_bind, Option.bind_some]
        have hlog := hlog.trans (Action.sameButLog_report f [⟨.info, .command, "decompiled " ++
          toString tree.functions.length ++ " handlers from " ++ a.script⟩] before)
        rw [← hlog.directory_eq, ← hlog.host_eq]
        exact ends_deliver (hlog.printed_eq.trans hs) _

/-- A failure is only logged, if the command does not end on the spot. -/
theorem run_fail (f : LogFilter) (e : CommandError) (s : Session) :
    ((fail f e).run s).1.code ≠ 0 ∧ s.SameButLog ((fail f e).run s).2 := by
  unfold fail
  split
  · exact ⟨Nat.succ_ne_zero _, rfl, rfl, rfl⟩
  · rw [Action.run_bind]
    exact ⟨Nat.succ_ne_zero _, Action.sameButLog_report _ _ s⟩

theorem ends_run (hs : s.printed = "") (env : Environment) (a : Arguments) :
    ∃ ok : Bool, (((run env a).run s).1.code = 0 ↔ ok = true) ∧
      Ends s.host s.directory a (source? s.host env s.directory a) ok ((run env a).run s).2 := by
  obtain ⟨r, hload, hsettings⟩ := run_loadSettings env a s
  unfold run source?
  rw [Action.run_bind, hload, ← hsettings]
  cases r with
  | error e =>
    dsimp only [Except.toOption, Option.bind]
    obtain ⟨hcode, hlog⟩ := run_fail (logFilter env {}) e s
    exact ⟨false, by simp [hcode], .nothing hlog.directory_eq (hlog.printed_eq.trans hs)⟩
  | ok settings =>
    dsimp only [Except.toOption, Option.bind]
    rw [Action.run_bind]
    have hends := ends_decompile hs (logFilter env settings) settings a
    generalize (decompile (logFilter env settings) settings a).run s = result at hends ⊢
    obtain ⟨r, after⟩ := result
    cases r with
    | error e =>
      obtain ⟨hcode, hlog⟩ := run_fail (logFilter env settings) e after
      exact ⟨false, by simp [hcode], hends.sameButLog hlog⟩
    | ok _ => exact ⟨true, iff_of_true rfl rfl, hends⟩

theorem ends_start {words : List String} (hwords : Arguments.read words = some (.decompile a))
    (hs : s.printed = "") (env : Environment) :
    ∃ ok : Bool, (((start env words).run s).1.code = 0 ↔ ok = true) ∧
      Ends s.host s.directory a ((environmentIn? s.host env s.directory).bind fun env =>
        source? s.host env s.directory a) ok ((start env words).run s).2 := by
  unfold start
  rw [Action.run_bind, run_loadEnvironment, hwords]
  dsimp only
  cases environmentIn? s.host env s.directory with
  | none => exact ⟨false, iff_of_false (Nat.succ_ne_zero _) Bool.false_ne_true, .nothing rfl hs⟩
  | some env => exact ends_run hs env a

/-- A text is there in the environment of a command if and only if variables can have all values that are set
and it is there in the environment with them. -/
theorem bind_source?_eq_some_iff {host : Host} {env : Environment} {d : Directory} {text : String} :
    ((environmentIn? host env d).bind fun env => source? host env d a) = some text ↔
      ¬SetsNull host env d ∧ source? host (environmentIn host env d) d a = some text := by
  rw [← environmentIn?_eq_none_iff]
  unfold environmentIn
  cases environmentIn? host env d <;> simp

def ended (host : Host) (env : Environment) (d : Directory) (words : List String) : ExitStatus × Session :=
  (start env words).run { directory := d, host }

/-- A command ends well exactly if no variable is set to a value with a null character, the settings can be
loaded, both files can be read, the script is recovered and a file to write to can be written. Then the text of
the script is printed and no file is changed, or it is in that file, nothing is printed and no other file is
changed. Otherwise nothing is printed and all files are as they were. -/
theorem ended_all_or_nothing {words : List String} {a : Arguments}
    (hwords : Arguments.read words = some (.decompile a)) (host : Host) (env : Environment)
    (d : Directory) :
    ((ended host env d words).1.code = 0 ↔ ¬SetsNull host env d ∧
      ∃ text, source? host (environmentIn host env d) d a = some text ∧
        ∀ path, a.output = some path → ∃ d', host.write d path text.toUTF8.data = .ok d') ∧
    ((ended host env d words).1.code = 0 → ∀ text,
      source? host (environmentIn host env d) d a = some text →
      (a.output = none →
        (ended host env d words).2.printed = text ∧ (ended host env d words).2.directory = d) ∧
      ∀ path, a.output = some path → (ended host env d words).2.printed = "" ∧
        d.Replaced (ended host env d words).2.directory host.location path text.toUTF8.data) ∧
    ((ended host env d words).1.code ≠ 0 →
      (ended host env d words).2.printed = "" ∧ (ended host env d words).2.directory = d) := by
  obtain ⟨ok, hcode, hends⟩ := ends_start (s := { directory := d, host }) hwords rfl env
  change (ended host env d words).1.code = 0 ↔ _ at hcode
  change Ends host d a ((environmentIn? host env d).bind fun env => source? host env d a) ok
    (ended host env d words).2 at hends
  have hok : (ended host env d words).1.code = 0 ↔ ¬SetsNull host env d ∧
      ∃ text, source? host (environmentIn host env d) d a = some text ∧
        ∀ path, a.output = some path → ∃ d', host.write d path text.toUTF8.data = .ok d' := by
    simp only [hcode, hends.ok_iff, bind_source?_eq_some_iff, and_assoc, exists_and_left]
  refine ⟨hok, fun hzero text htext => ?_, fun hnot => ?_⟩
  · have hboth := bind_source?_eq_some_iff.2 ⟨(hok.1 hzero).1, htext⟩
    rw [hcode.1 hzero, hboth] at hends
    exact hends.delivered
  · rw [ne_eq, hcode, Bool.not_eq_true] at hnot
    rw [hnot] at hends
    exact hends.unchanged

/-- An empty handler `h`, an older result, and settings that a file above the directory names. -/
def handlerDirectory : Directory where
  files :=
    [(["a.lnam"], #[0, 0, 0, 0, 0, 0, 0, 0, 0, 0, 0, 22, 0, 0, 0, 22, 0, 20, 0, 1, 1, 104]),
     (["a.lscr"], ScriptImage.bytes
       { scriptType := 2, globalCount := 0, properties := [], globals := [], constants := [], wide := false
         handlers :=
           [{ nameId := 0, locals := [], parameters := [], mark := .replicate _ 0, trailer := .replicate _ 0
              bytecode := [0x01] }]
         word := .replicate _ 0, words := .replicate _ 0
         marks := (.replicate _ 0, .replicate _ 0, .replicate _ 0), trailer := .replicate _ 0 }),
     (["c.toml"], "target = \"lingo\"\nfactory = \"f\"".toUTF8.data),
     (["a.js"], "old".toUTF8.data),
     (["/", "tmp", ".env"], "LSCR2SRC_CONFIG=c.toml".toUTF8.data)]

def handlerArguments : Arguments where
  names := "a.lnam"
  script := "a.lscr"
  target := some .javaScript
  output := some "a.js"

def handlerText : String :=
  "class Factory__f extends FactoryBase \x7b\n    h() \x7b\n    \x7d\n\x7d\n\n" ++
  "function f(methodName, ...args) \x7b\n    return factoryCall('f', methodName, args);\n\x7d\n"

/-- The target of the arguments wins over the settings, and the older result is replaced. -/
theorem ended_handlerDirectory :
    let words := ["--lnam=a.lnam", "--lscr=a.lscr", "--target=js", "--out=a.js"]
    (ended {} {} handlerDirectory words).1.code = 0 ∧
      (ended {} {} handlerDirectory words).2.directory.read "a.js" = .ok handlerText.toUTF8.data := by
  intro words
  have hwords : Arguments.read words = some (.decompile handlerArguments) := by decide +kernel
  have hsome : (environmentIn? {} {} handlerDirectory).isSome = true := by decide +kernel
  have hnull : ¬SetsNull {} {} handlerDirectory := fun h => by
    rw [(environmentIn?_eq_none_iff _ _ _).2 h] at hsome
    cases hsome
  have hsource : source? {} (environmentIn {} {} handlerDirectory) handlerDirectory handlerArguments =
      some handlerText := by decide +kernel
  obtain ⟨d', hwrite⟩ : ∃ d', Host.write {} handlerDirectory "a.js" handlerText.toUTF8.data = .ok d' := by
    have hok : (Host.write {} handlerDirectory "a.js" handlerText.toUTF8.data).isOk = true := by
      decide +kernel
    cases hwrite : Host.write {} handlerDirectory "a.js" handlerText.toUTF8.data with
    | ok d' => exact ⟨d', rfl⟩
    | error e =>
      rw [hwrite] at hok
      cases hok
  obtain ⟨hcode, hdone, -⟩ := ended_all_or_nothing hwords {} {} handlerDirectory
  have hzero := hcode.2 ⟨hnull, _, hsource, fun path hpath => by cases hpath; exact ⟨d', hwrite⟩⟩
  exact ⟨hzero, ((hdone hzero _ hsource).2 "a.js" rfl).2.readAt_eq⟩

/-- A value that no variable can have ends a command, though its settings do not come from the environment and
its text is there in any environment. -/
theorem ended_nullCharacter :
    let words := ["--lnam=a.lnam", "--lscr=a.lscr", "--target=js", "--config=c.toml"]
    let a := { handlerArguments with settings := some "c.toml", output := none }
    let d := handlerDirectory.put [".env"] #[65, 61, 120, 0, 121]
    Arguments.read words = some (.decompile a) ∧
      (∀ env, source? {} env d a = some handlerText) ∧ (ended {} {} d words).1.code = 101 := by
  refine ⟨by decide +kernel, fun env => ?_, by decide +kernel⟩
  show source? {} {} _ _ = _
  decide +kernel

end Command

end LingoSource
