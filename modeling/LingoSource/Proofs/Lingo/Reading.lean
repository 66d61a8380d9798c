import LingoSource.Proofs.Lingo.Phrase
import LingoSource.Proofs.Tree.Forget
import Mathlib.Data.List.Forall2

set_option autoImplicit false

namespace LingoSource.Lingo

open Text

/-- A phrase as its text has it: without places, and with a property of the target of a `tell` as a movie
property. -/
def heard : Node → Node
  | .unary _ op operand => .unary 0 op (heard operand)
  | .binary _ op left right => .binary 0 op (heard left) (heard right)
  | .property _ object name =>
    if isTellTarget object then .leaf .propertyName name 0 else .property 0 (heard object) name
  | .chunk _ kind first of => .chunk 0 kind (heard first) (heard of)
  | .chunkRange _ kind first last of => .chunkRange 0 kind (heard first) (heard last) (heard of)
  | node => node.forget

def tells : Node → Bool
  | .unary _ _ operand => tells operand
  | .binary _ _ left right => tells left || tells right
  | .property _ object _ => isTellTarget object || tells object
  | .chunk _ _ first of => tells first || tells of
  | .chunkRange _ _ first last of => tells first || tells last || tells of
  | _ => false

/-- For each `the` of a phrase, in the order of its text, whether it has an `of` of its own. -/
def owners : Node → List Bool
  | .leaf .propertyName _ _ => [false]
  | .unary _ _ operand => owners operand
  | .binary _ _ left right => owners left ++ owners right
  | .property _ object _ => if isTellTarget object then [false] else true :: owners object
  | .chunk _ _ first of => owners first ++ owners of
  | .chunkRange _ _ first last of => owners first ++ (owners last ++ owners of)
  | _ => []

def followed : List String → List Bool
  | [] => []
  | word :: rest =>
    if word = "the" then (rest[1]? == some "of") :: followed rest else followed rest

inductive Opening
  | article
  | parenthesis
  | unary (op : UnaryOp)
  | chunk (kind : ChunkKind)
  | name

def opening (word : String) : Opening :=
  if word = "the" then .article
  else if word = "(" then .parenthesis
  else
    match [UnaryOp.not, .field].find? (·.lingo = word) with
    | some op => .unary op
    | none =>
      match [ChunkKind.char, .word, .item, .line].find? (·.name = word) with
      | some kind => .chunk kind
      | none => .name

def binaryOp? (word : String) : Option BinaryOp :=
  [.add, .sub, .mul, .div, .mod, .concat, .concatSpaces, .contains, .start, .and, .or, .lt, .ltEq, .gt,
    .gtEq, .eq, .ntEq].find? (·.lingo = word)

/-- Reads a phrase, told for each `the` whether it has an `of` of its own, and leaves what comes behind. -/
def readPhrase : Nat → List Bool → List String → Option (Node × List Bool × List String)
  | n + 1, owners, word :: rest =>
    match opening word with
    | .article =>
      match owners, rest with
      | true :: owners, name :: _ :: rest => do
        let (object, owners, rest) ← readPhrase n owners rest
        some (.property 0 object name, owners, rest)
      | false :: owners, name :: rest => some (.leaf .propertyName name 0, owners, rest)
      | _, _ => none
    | .parenthesis => do
      let (left, owners, rest) ← readPhrase n owners rest
      let op ← rest.head?.bind binaryOp?
      let (right, owners, rest) ← readPhrase n owners rest.tail
      some (.binary 0 op left right, owners, rest.tail)
    | .unary op => do
      let (operand, owners, rest) ← readPhrase n owners rest
      some (.unary 0 op operand, owners, rest)
    | .chunk kind => do
      let (first, owners, rest) ← readPhrase n owners rest
      if rest.head? = some "to" then
        let (last, owners, rest) ← readPhrase n owners rest.tail
        let (of, owners, rest) ← readPhrase n owners rest.tail
        some (.chunkRange 0 kind first last of, owners, rest)
      else
        let (of, owners, rest) ← readPhrase n owners rest.tail
        some (.chunk 0 kind first of, owners, rest)
    | .name => some (.leaf .localVariable word 0, owners, rest)
  | _, _, _ => none

theorem opening_the : opening "the" = .article := rfl

theorem opening_parenthesis : opening "(" = .parenthesis := rfl

theorem opening_unary {op : UnaryOp} (h : op = .not ∨ op = .field) :
    opening op.lingo = .unary op := by
  rcases h with rfl | rfl <;> rfl

theorem opening_chunk (kind : ChunkKind) : opening kind.name = .chunk kind := by
  cases kind <;> rfl

theorem opening_name {name : String} (h : isName name = true) : opening name = .name := by
  have hkeyword := not_mem_keywords h
  have hthe : name ≠ "the" := by
    rintro rfl
    exact hkeyword (by decide)
  have hparenthesis : name ≠ "(" := by
    rintro rfl
    cases h
  have hunary : [UnaryOp.not, .field].find? (·.lingo = name) = none := by
    refine List.find?_eq_none.2 fun op hop hname => hkeyword ?_
    rw [← of_decide_eq_true hname]
    exact (by decide : ∀ op ∈ [UnaryOp.not, .field], op.lingo ∈ keywords) op hop
  have hchunk : [ChunkKind.char, .word, .item, .line].find? (·.name = name) = none := by
    refine List.find?_eq_none.2 fun kind _ hname => hkeyword ?_
    rw [← of_decide_eq_true hname]
    cases kind <;> decide
  rw [opening, if_neg hthe, if_neg hparenthesis, hunary, hchunk]

theorem binaryOp?_lingo {op : BinaryOp} (h : op.isSpritePredicate = false) :
    binaryOp? op.lingo = some op := by
  cases op with
  | intersects | within => cases h
  | _ => rfl

variable {node : Node} {n : Nat}

theorem exists_succ (h : Phrase node) (hn : (spelling node).length ≤ n) : ∃ m, n = m + 1 := by
  have hpos := List.length_pos_iff.2 (spelling_ne_nil h)
  exact ⟨n - 1, by omega⟩

theorem readPhrase_spelling (h : Phrase node) (hn : (spelling node).length ≤ n) (later : List Bool)
    (rest : List String) :
    readPhrase n (owners node ++ later) (spelling node ++ rest) = some (heard node, later, rest) := by
  obtain ⟨n, rfl⟩ := exists_succ h hn
  induction h generalizing n later rest with
  | localVariable h => simp [owners, spelling, heard, Node.forget, readPhrase, opening_name h]
  | propertyName => simp [owners, spelling, heard, Node.forget, readPhrase, opening_the]
  | @unary origin op operand hop hoperand ih =>
    simp only [spelling, List.length_cons] at hn
    obtain ⟨n, rfl⟩ := exists_succ (n := n) hoperand (by omega)
    have hread := fun later rest => ih later rest n (by omega)
    simp [owners, spelling, heard, readPhrase, opening_unary hop, hread]
  | @binary origin op left right hop hleft hright ihleft ihright =>
    simp only [spelling, List.length_cons, List.length_append] at hn
    obtain ⟨n, rfl⟩ := exists_succ (n := n) hleft (by omega)
    have hreadLeft := fun later rest => ihleft later rest n (by omega)
    have hreadRight := fun later rest => ihright later rest n (by omega)
    simp [owners, spelling, heard, readPhrase, opening_parenthesis, hreadLeft, hreadRight,
      binaryOp?_lingo hop]
  | @property origin object name h hobject ih =>
    cases htarget : isTellTarget object with
    | true => simp [owners, spelling, heard, htarget, readPhrase, opening_the]
    | false =>
      simp only [spelling, htarget, Bool.false_eq_true, if_false, List.length_cons] at hn
      obtain ⟨n, rfl⟩ := exists_succ (n := n) hobject (by omega)
      have hread := fun later rest => ih later rest n (by omega)
      simp [owners, spelling, heard, htarget, readPhrase, opening_the, hread]
  | @chunk origin kind first of hfirst hof ihfirst ihof =>
    simp only [spelling, List.length_cons, List.length_append] at hn
    obtain ⟨n, rfl⟩ := exists_succ (n := n) hfirst (by omega)
    have hreadFirst := fun later rest => ihfirst later rest n (by omega)
    have hreadOf := fun later rest => ihof later rest n (by omega)
    simp [owners, spelling, heard, readPhrase, opening_chunk, hreadFirst, hreadOf]
  | @chunkRange origin kind first last of hfirst hlast hof ihfirst ihlast ihof =>
    simp only [spelling, List.length_cons, List.length_append] at hn
    obtain ⟨n, rfl⟩ := exists_succ (n := n) hfirst (by omega)
    have hreadFirst := fun later rest => ihfirst later rest n (by omega)
    have hreadLast := fun later rest => ihlast later rest n (by omega)
    have hreadOf := fun later rest => ihof later rest n (by omega)
    simp [owners, spelling, heard, readPhrase, opening_chunk, hreadFirst, hreadLast, hreadOf]

/-- The text of a phrase and the owners of its `of`s tell the phrase. -/
theorem heard_eq_of_owners_eq {a b : Node} (ha : Phrase a) (hb : Phrase b)
    (hspelling : spelling a = spelling b) (howners : owners a = owners b) : heard a = heard b := by
  have hread := readPhrase_spelling ha (Nat.le_refl _) [] []
  rw [hspelling, howners, readPhrase_spelling hb (Nat.le_refl _) [] []] at hread
  exact (congrArg Prod.fst (Option.some.inj hread)).symm

theorem isTellTarget_heard (node : Node) : isTellTarget (heard node) = isTellTarget node := by
  cases node with
  | property =>
    rw [heard]
    split <;> rfl
  | leaf kind => cases kind <;> rfl
  | _ => rfl

theorem owners_heard (h : Phrase node) : owners (heard node) = owners node := by
  induction h with
  | @property origin object name _ _ ih =>
    cases htarget : isTellTarget object with
    | true => simp [heard, owners, htarget]
    | false => simp [heard, owners, htarget, isTellTarget_heard, ih]
  | _ => simp_all [heard, owners, Node.forget]

theorem heard_eq_forget (h : Phrase node) (htells : tells node = false) :
    heard node = node.forget := by
  induction h with
  | _ => simp_all [heard, tells, Node.forget]

section Followed

variable {word : String} {rest : List String}

theorem followed_the (rest : List String) :
    followed ("the" :: rest) = (rest[1]? == some "of") :: followed rest := rfl

theorem followed_cons (h : word ≠ "the") (rest : List String) :
    followed (word :: rest) = followed rest := by
  rw [followed, if_neg h]

theorem followed_name (h : isName word = true) (rest : List String) :
    followed (word :: rest) = followed rest := by
  refine followed_cons ?_ rest
  rintro rfl
  cases h

theorem followed_lingo (op : BinaryOp) (rest : List String) :
    followed (op.lingo :: rest) = followed rest := by
  cases op <;> exact followed_cons (by decide) rest

theorem followed_spelling (h : Phrase node) (rest : List String) :
    ∃ later, followed (spelling node ++ rest) = later ++ followed rest ∧
      List.Forall₂ (· ≤ ·) (owners node) later := by
  induction h generalizing rest with
  | localVariable h => exact ⟨[], followed_name h rest, .nil⟩
  | @propertyName name _ h =>
    refine ⟨[rest.head? == some "of"], ?_, .cons (Bool.false_le _) .nil⟩
    simp [spelling, followed_the, followed_name h, List.head?_eq_getElem?]
  | @unary _ op _ hop _ ih =>
    obtain ⟨later, hlater, hle⟩ := ih rest
    refine ⟨later, ?_, hle⟩
    have hword : op.lingo ≠ "the" := by rcases hop with rfl | rfl <;> decide
    rw [spelling, List.cons_append, followed_cons hword, hlater]
  | @binary _ op left right _ _ _ ihleft ihright =>
    obtain ⟨l, hl, hlle⟩ := ihleft (op.lingo :: (spelling right ++ ")" :: rest))
    obtain ⟨r, hr, hrle⟩ := ihright (")" :: rest)
    refine ⟨l ++ r, ?_, List.rel_append hlle hrle⟩
    simp [spelling, followed_cons, hl, followed_lingo, hr]
  | @property _ object name h _ ih =>
    obtain ⟨later, hlater, hle⟩ := ih rest
    cases htarget : isTellTarget object with
    | true =>
      refine ⟨[rest.head? == some "of"], ?_, ?_⟩
      · simp [spelling, htarget, followed_the, followed_name h, List.head?_eq_getElem?]
      · simp [owners, htarget]
    | false =>
      refine ⟨true :: later, ?_, ?_⟩
      · simp [spelling, htarget, followed_the, followed_name h, followed_cons, hlater]
      · simpa [owners, htarget] using hle
  | @chunk _ kind first of _ _ ihfirst ihof =>
    obtain ⟨f, hf, hfle⟩ := ihfirst ("of" :: (spelling of ++ rest))
    obtain ⟨o, ho, hole⟩ := ihof rest
    refine ⟨f ++ o, ?_, List.rel_append hfle hole⟩
    have hword : kind.name ≠ "the" := by cases kind <;> decide
    simp [spelling, followed_cons hword, hf, followed_cons, ho]
  | @chunkRange _ kind first last of _ _ _ ihfirst ihlast ihof =>
    obtain ⟨f, hf, hfle⟩ := ihfirst ("to" :: (spelling last ++ "of" :: (spelling of ++ rest)))
    obtain ⟨l, hl, hlle⟩ := ihlast ("of" :: (spelling of ++ rest))
    obtain ⟨o, ho, hole⟩ := ihof rest
    refine ⟨f ++ (l ++ o), ?_, List.rel_append hfle (List.rel_append hlle hole)⟩
    have hword : kind.name ≠ "the" := by cases kind <;> decide
    simp [spelling, followed_cons hword, hf, followed_cons, hl, ho]

end Followed

def isChunkWord (word : String) : Bool :=
  match opening word with
  | .chunk _ => true
  | _ => false

section Count

theorem isChunkWord_of_mem {word : String} (h : word ∈ ["the", "of", "to", "not", "field", "(", ")"]) :
    isChunkWord word = false :=
  (by decide : ∀ word ∈ ["the", "of", "to", "not", "field", "(", ")"], isChunkWord word = false) word h

theorem isChunkWord_name (kind : ChunkKind) :
    kind.name ≠ "of" ∧ isChunkWord kind.name = true := by
  cases kind <;> decide

theorem isChunkWord_lingo (op : BinaryOp) : op.lingo ≠ "of" ∧ isChunkWord op.lingo = false := by
  cases op <;> decide

theorem isChunkWord_of_isName {name : String} (h : isName name = true) :
    name ≠ "of" ∧ isChunkWord name = false := by
  refine ⟨?_, by rw [isChunkWord, opening_name h]⟩
  rintro rfl
  cases h

theorem count_of_spelling (h : Phrase node) :
    (spelling node).count "of" = (owners node).count true + (spelling node).countP isChunkWord := by
  induction h with
  | localVariable h => simp [spelling, owners, isChunkWord_of_isName h]
  | propertyName h => simp [spelling, owners, isChunkWord_of_isName h, isChunkWord_of_mem]
  | unary hop _ ih =>
    rcases hop with rfl | rfl <;> simp [spelling, owners, ih, UnaryOp.lingo, isChunkWord_of_mem]
  | binary _ _ _ ihleft ihright =>
    simp [spelling, owners, ihleft, ihright, isChunkWord_lingo, isChunkWord_of_mem]
    omega
  | @property _ object _ h _ ih =>
    cases htarget : isTellTarget object with
    | true => simp [spelling, owners, htarget, isChunkWord_of_isName h, isChunkWord_of_mem]
    | false =>
      simp [spelling, owners, htarget, ih, isChunkWord_of_isName h, isChunkWord_of_mem]
      omega
  | chunk _ _ ihfirst ihof =>
    simp [spelling, owners, ihfirst, ihof, isChunkWord_name, isChunkWord_of_mem]
    omega
  | chunkRange _ _ _ ihfirst ihlast ihof =>
    simp [spelling, owners, ihfirst, ihlast, ihof, isChunkWord_name, isChunkWord_of_mem]
    omega

end Count

section Bounds

variable {p q : List Bool}

theorem count_le_of_forall₂ (h : List.Forall₂ (· ≤ ·) p q) : p.count true ≤ q.count true := by
  induction h with
  | nil => exact Nat.le_refl _
  | @cons x y _ _ hle _ ih =>
    have hhead : (if x then 1 else 0) ≤ if y then 1 else 0 :=
      (by decide : ∀ x y : Bool, x ≤ y → (if x then 1 else 0) ≤ if y then 1 else 0) x y hle
    simpa [List.count_cons] using Nat.add_le_add ih hhead

theorem eq_of_forall₂_of_count (h : List.Forall₂ (· ≤ ·) p q) (hcount : p.count true = q.count true) :
    p = q := by
  induction h with
  | nil => rfl
  | @cons x y p q hle hrest ih =>
    have hcountLe := count_le_of_forall₂ hrest
    rw [List.count_cons, List.count_cons] at hcount
    cases x <;> cases y
    · rw [ih (by simpa using hcount)]
    · simp at hcount
      omega
    · cases hle rfl
    · rw [ih (by simpa using hcount)]

theorem eq_replicate_of_not_mem (h : true ∉ p) : p = List.replicate p.length false := by
  refine List.eq_replicate_iff.2 ⟨rfl, fun mark hmark => ?_⟩
  cases mark with
  | false => rfl
  | true => exact absurd hmark h

end Bounds

theorem owners_le_followed (h : Phrase node) :
    List.Forall₂ (· ≤ ·) (owners node) (followed (words (expression node))) := by
  obtain ⟨later, hlater, hle⟩ := followed_spelling h []
  rw [List.append_nil, followed, List.append_nil] at hlater
  rwa [(spells_expression h).words_eq, hlater]

/-- Phrases with one text have as many properties with an owner, and are the same exactly if it is the same
`of`s that belong to these. It is so if in one of them every `of` directly behind a property is its own,
or if none is. -/
theorem Phrase.heard_eq_iff {a b : Node} (ha : Phrase a) (hb : Phrase b)
    (htext : expression a = expression b) :
    (heard a = heard b ↔ owners a = owners b) ∧
      (owners a).count true = (owners b).count true ∧
      (owners a = followed (words (expression a)) ∨ true ∉ owners a → heard a = heard b) ∧
      (tells a = false → tells b = false → (heard a = heard b ↔ a.forget = b.forget)) := by
  have hspelling : spelling a = spelling b := by
    rw [← (spells_expression ha).words_eq, htext, (spells_expression hb).words_eq]
  have hcount : (owners a).count true = (owners b).count true := by
    have hcounta := count_of_spelling ha
    rw [hspelling, count_of_spelling hb] at hcounta
    omega
  have howners := heard_eq_of_owners_eq ha hb hspelling
  have hboundb := owners_le_followed hb
  rw [← htext] at hboundb
  refine ⟨⟨fun h => ?_, howners⟩, hcount, fun h => howners ?_, fun htellsa htellsb => ?_⟩
  · rw [← owners_heard ha, h, owners_heard hb]
  · rcases h with h | h
    · rw [h] at hcount ⊢
      exact (eq_of_forall₂_of_count hboundb hcount.symm).symm
    · have hlength := (owners_le_followed ha).length_eq.trans hboundb.length_eq.symm
      have hnone : true ∉ owners b := List.count_eq_zero.1 (hcount ▸ List.count_eq_zero.2 h)
      rw [eq_replicate_of_not_mem h, eq_replicate_of_not_mem hnone, hlength]
  · rw [heard_eq_forget ha htellsa, heard_eq_forget hb htellsb]

/-- `char x to the p of y of (z & the q)` -/
def settledPhrase (position : Nat) : Node :=
  let variableNamed (name : String) := Node.leaf .localVariable name position
  .chunkRange position .char (variableNamed "x") (.property position (variableNamed "y") "p")
    (.binary position .concat (variableNamed "z") (.leaf .propertyName "q" position))

theorem phrase_settledPhrase (position : Nat) : Phrase (settledPhrase position) :=
  have variableNamed {name : String} (h : isName name = true) (hme : name ≠ "me")
      (howner : startsWith name "_" = false) : Phrase (.leaf .localVariable name position) :=
    .localVariable h hme howner
  .chunkRange (variableNamed (by decide) (by decide) (by decide))
    (.property (by decide) (variableNamed (by decide) (by decide) (by decide)))
    (.binary rfl (variableNamed (by decide) (by decide) (by decide))
      (.propertyName (by decide) (by decide)))

theorem Phrase.heard_eq_iff_settled :
    owners (settledPhrase 0) = [true, false] ∧
      (settledPhrase 0).forget = (settledPhrase 7).forget := by
  have htext : expression (settledPhrase 0) = expression (settledPhrase 7) := by decide +kernel
  obtain ⟨-, -, hsettled, hforget⟩ :=
    heard_eq_iff (phrase_settledPhrase 0) (phrase_settledPhrase 7) htext
  exact ⟨rfl, (hforget rfl rfl).1 (hsettled (.inl (by decide +kernel)))⟩

/-- In `char the p of the q of y` either `of` can belong to the chunk, and the target of a `tell` is not
seen. -/
theorem Phrase.heard_eq_iff_dangling :
    let p := Node.leaf .propertyName "p" 0
    let y := Node.leaf .localVariable "y" 0
    let behind := Node.chunk 0 .char p (.property 0 y "q")
    let before := Node.chunk 0 .char (.property 0 (.leaf .propertyName "q" 0) "p") y
    let told := Node.property 0 (.leaf .localVariable "tell_obj" 0) "p"
    (Phrase behind ∧ Phrase before ∧ expression behind = "char the p of the q of y" ∧
      expression before = "char the p of the q of y" ∧ behind.forget ≠ before.forget) ∧
    Phrase told ∧ Phrase p ∧ expression told = "the p" ∧ expression p = "the p" ∧
      told.forget ≠ p.forget := by
  intro p y behind before told
  have hp : Phrase p := .propertyName (by decide) (by decide)
  have hy : Phrase y := .localVariable (by decide) (by decide) (by decide)
  have hbehind : Phrase behind := .chunk hp (.property (by decide) hy)
  have hbefore : Phrase before :=
    .chunk (.property (by decide) (.propertyName (by decide) (by decide))) hy
  have htold : Phrase told :=
    .property (by decide) (.localVariable (by decide) (by decide) (by decide))
  exact ⟨⟨hbehind, hbefore, by decide +kernel, by decide +kernel, nofun⟩, htold, hp,
    by decide +kernel, by decide +kernel, nofun⟩

end LingoSource.Lingo
