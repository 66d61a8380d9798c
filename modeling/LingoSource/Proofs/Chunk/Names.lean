import LingoSource.Chunk.NameTable
import LingoSource.Proofs.Chunk.Reading

/-!
Name tables as bytes. Behind the header the reader takes as many names as the header counts, each with its
length in front, and what it takes is known from the bytes alone: the offset in the header has no part in it.
So a table is read back if its names stand directly behind the header. If something else stands there, it is
taken for names.
-/
set_option autoImplicit false

namespace LingoSource

open Bytes

structure PascalName where
  bytes : List UInt8
  length_lt : bytes.length < 256

namespace PascalName

variable {m n : PascalName} {rest : List UInt8}

def encoded (n : PascalName) : List UInt8 :=
  UInt8.ofNat n.bytes.length :: n.bytes

def text (n : PascalName) : String :=
  latin1 n.bytes

theorem eq_of_bytes (h : m.bytes = n.bytes) : m = n := by
  cases m
  cases n
  cases h
  rfl

theorem toNat_length (n : PascalName) : (UInt8.ofNat n.bytes.length).toNat = n.bytes.length := by
  rw [UInt8.toNat_ofNat', Nat.mod_eq_of_lt n.length_lt]

theorem length_encoded (n : PascalName) : n.encoded.length = n.bytes.length + 1 := rfl

theorem map_toNat_text (n : PascalName) : n.text.toList.map Char.toNat = n.bytes.map UInt8.toNat := by
  have hcode (b : UInt8) : (Char.ofNat b.toNat).toNat = b.toNat := by
    have hvalid : b.toNat.isValidChar := .inl (Nat.lt_trans b.toNat_lt (by decide))
    rw [Char.ofNat, dif_pos hvalid]
    rfl
  simp [text, latin1, hcode]

theorem eq_of_text (h : m.text = n.text) : m = n := by
  have hcodes : m.bytes.map UInt8.toNat = n.bytes.map UInt8.toNat := by
    rw [← map_toNat_text, ← map_toNat_text, h]
  exact eq_of_bytes ((List.map_inj_right fun _ _ => UInt8.toNat_inj.1).1 hcodes)

theorem eq_of_encoded (hm : m.encoded <+: rest) (hn : n.encoded <+: rest) : m = n := by
  obtain ⟨s, hs⟩ := hm
  obtain ⟨t, ht⟩ := hn
  have hsame : m.encoded ++ s = n.encoded ++ t := hs.trans ht.symm
  obtain ⟨hlength, hbytes⟩ := List.cons.inj hsame
  have hlength : m.bytes.length = n.bytes.length := by
    rw [← m.toNat_length, ← n.toNat_length, hlength]
  exact eq_of_bytes (List.append_inj hbytes hlength).1

def encodedAll (names : List PascalName) : List UInt8 :=
  names.flatMap encoded

theorem encodedAll_cons (n : PascalName) (names : List PascalName) :
    encodedAll (n :: names) = n.encoded ++ encodedAll names := rfl

end PascalName

open PascalName

namespace Bytes

variable {data : Bytes} {before rest : List UInt8}

theorem slice_append (hdata : data.toList = before ++ rest) (count : Nat) :
    data.slice before.length count =
      if count ≤ rest.length then .ok (rest.take count) else .error ⟨count, before.length⟩ := by
  have hsize : data.size = before.length + rest.length := by
    rw [← Array.length_toList, hdata, List.length_append]
  unfold slice
  simp [hsize, List.extract_eq_take_drop, hdata]

end Bytes

namespace NameTable

section Names

variable {data : Bytes} {before rest : List UInt8} {count index : Nat}

theorem readNames_encoded {n : PascalName} (hdata : data.toList = before ++ (n.encoded ++ rest)) :
    readNames data (count + 1) index before.length =
      (readNames data count (index + 1) (before ++ n.encoded).length).map (n.text :: ·) := by
  have hlength : data.unsigned before.length 1 = .ok n.bytes.length := by
    rw [unsigned, slice_append hdata, if_pos (by simp [length_encoded]; omega)]
    simp [Except.map, encoded, bigEndian, Nat.mod_eq_of_lt n.length_lt]
  have htext : data.text (before.length + 1) n.bytes.length = .ok n.text := by
    have hbehind : data.toList =
        (before ++ [UInt8.ofNat n.bytes.length]) ++ (n.bytes ++ rest) := by
      simp [hdata, encoded]
    have hslice := slice_append hbehind n.bytes.length
    rw [List.length_append, List.length_singleton] at hslice
    rw [Bytes.text, hslice, if_pos (by simp), List.take_left]
    rfl
  have hoffset : (before ++ n.encoded).length = before.length + 1 + n.bytes.length := by
    rw [List.length_append, length_encoded]
    omega
  rw [readNames, hlength, hoffset, ChunkPart.reading_ok, ok_bind, htext, ChunkPart.reading_ok, ok_bind]
  cases readNames data count (index + 1) (before.length + 1 + n.bytes.length) <;> rfl

theorem readNames_of_none (count index : Nat) (hdata : data.toList = before ++ rest)
    (hnone : ∀ n : PascalName, ¬ n.encoded <+: rest) :
    ∃ e, readNames data (count + 1) index before.length = .error (.truncated (.name index) e) := by
  cases rest with
  | nil =>
    refine ⟨⟨1, before.length⟩, ?_⟩
    rw [readNames, unsigned, slice_append hdata]
    rfl
  | cons b tail =>
    have hshort : tail.length < b.toNat := by
      refine Nat.lt_of_not_le fun hle => ?_
      have htake : (tail.take b.toNat).length = b.toNat := List.length_take_of_le hle
      have hlt : (tail.take b.toNat).length < 256 := by
        rw [htake]
        exact b.toNat_lt
      refine hnone ⟨tail.take b.toNat, hlt⟩ ⟨tail.drop b.toNat, ?_⟩
      rw [encoded, htake, UInt8.ofNat_toNat, List.cons_append, List.take_append_drop]
    have hlength : data.unsigned before.length 1 = .ok b.toNat := by
      rw [unsigned, slice_append hdata, if_pos (by simp)]
      simp [Except.map, bigEndian]
    have htext : data.text (before.length + 1) b.toNat = .error ⟨b.toNat, before.length + 1⟩ := by
      have hbehind : data.toList = (before ++ [b]) ++ tail := by simp [hdata]
      have hslice := slice_append hbehind b.toNat
      rw [List.length_append, List.length_singleton, if_neg (by omega)] at hslice
      rw [Bytes.text, hslice]
      rfl
    refine ⟨⟨b.toNat, before.length + 1⟩, ?_⟩
    rw [readNames, hlength, ChunkPart.reading_ok, ok_bind, htext]
    rfl

/-- The reader takes the names that stand behind the others, and nothing else. -/
theorem readNames_eq_ok_iff {texts : List String} (hdata : data.toList = before ++ rest) :
    readNames data count index before.length = .ok texts ↔
      ∃ names : List PascalName, names.length = count ∧ encodedAll names <+: rest ∧
        texts = names.map PascalName.text := by
  induction count generalizing index before rest texts with
  | zero =>
    constructor
    · intro h
      cases h
      exact ⟨[], rfl, List.nil_prefix, rfl⟩
    · rintro ⟨names, hlength, -, rfl⟩
      rw [List.length_eq_zero_iff.1 hlength]
      rfl
  | succ count ih =>
    by_cases hname : ∃ n : PascalName, n.encoded <+: rest
    · obtain ⟨n, rest, rfl⟩ := hname
      rw [readNames_encoded hdata]
      have hbehind : data.toList = before ++ n.encoded ++ rest := by rw [hdata, List.append_assoc]
      constructor
      · intro h
        cases hrest : readNames data count (index + 1) (before ++ n.encoded).length with
        | error e =>
          rw [hrest] at h
          cases h
        | ok texts =>
          obtain ⟨names, hlength, hstart, rfl⟩ := (ih hbehind).1 hrest
          rw [hrest] at h
          cases h
          exact ⟨n :: names, congrArg (· + 1) hlength, (List.prefix_append_right_inj _).2 hstart, rfl⟩
      · rintro ⟨names, hlength, hstart, rfl⟩
        obtain ⟨m, names, rfl⟩ := List.exists_cons_of_length_eq_add_one hlength
        rw [encodedAll_cons] at hstart
        have hsame : m = n := eq_of_encoded ((List.prefix_append _ _).trans hstart) (List.prefix_append _ _)
        subst hsame
        rw [(ih hbehind).2 ⟨names, Nat.succ.inj hlength, (List.prefix_append_right_inj _).1 hstart, rfl⟩]
        rfl
    · obtain ⟨e, he⟩ := readNames_of_none count index hdata (not_exists.1 hname)
      rw [he]
      constructor
      · nofun
      · rintro ⟨names, hlength, hstart, -⟩
        obtain ⟨m, names, rfl⟩ := List.exists_cons_of_length_eq_add_one hlength
        exact absurd ⟨m, (List.prefix_append _ _).trans hstart⟩ hname

/-- Names that are cut off are read up to the one that the cut is in. -/
theorem readNames_take {names : List PascalName} {k : Nat} (index : Nat) (hk : k < (encodedAll names).length)
    (hdata : data.toList = before ++ (encodedAll names).take k) :
    ∃ i e, readNames data names.length index before.length =
        .error (.truncated (.name (index + i)) e) ∧
      (encodedAll (names.take i)).length ≤ k ∧ k < (encodedAll (names.take (i + 1))).length := by
  induction names generalizing index before k with
  | nil => exact absurd hk (Nat.not_lt_zero k)
  | cons n names ih =>
    rw [encodedAll_cons, List.length_append] at hk
    rcases Nat.lt_or_ge k n.encoded.length with hinside | hbehind
    · rw [encodedAll_cons, List.take_append_of_le_length (Nat.le_of_lt hinside)] at hdata
      have hnone (m : PascalName) : ¬ m.encoded <+: n.encoded.take k := by
        intro hstart
        have hsame := eq_of_encoded (hstart.trans <| List.take_prefix _ _) List.prefix_rfl
        have hle := hstart.length_le
        rw [hsame, List.length_take] at hle
        omega
      obtain ⟨e, he⟩ := readNames_of_none names.length index hdata hnone
      exact ⟨0, e, he, Nat.zero_le _, by simpa [encodedAll] using hinside⟩
    · have htake : (encodedAll (n :: names)).take k =
          n.encoded ++ (encodedAll names).take (k - n.encoded.length) := by
        rw [encodedAll_cons, List.take_append, List.take_of_length_le hbehind]
      rw [htake] at hdata
      have hrest : data.toList =
          before ++ n.encoded ++ (encodedAll names).take (k - n.encoded.length) := by
        rw [hdata, List.append_assoc]
      obtain ⟨i, e, he, hlow, hhigh⟩ := ih (k := k - n.encoded.length) (index + 1) (by omega) hrest
      refine ⟨i + 1, e, ?_, ?_, ?_⟩
      · rw [List.length_cons, readNames_encoded hdata, he, Nat.add_assoc, Nat.add_comm 1 i]
        rfl
      · rw [List.take_succ_cons, encodedAll_cons, List.length_append]
        omega
      · rw [List.take_succ_cons, encodedAll_cons, List.length_append]
        omega

end Names

end NameTable

/-- A name table with two words of no known meaning and an offset of the names, which may be anything. -/
structure NameTableImage where
  words : Vector UInt8 8
  size : UInt32
  namesOffset : UInt16
  names : List PascalName
  length_lt : names.length < 65536

namespace NameTableImage

variable (image : NameTableImage)

def header : List UInt8 :=
  image.words.toList ++ bigEndianBytes 4 image.size.toNat ++ bigEndianBytes 4 image.size.toNat ++
    bigEndianBytes 2 image.namesOffset.toNat ++ bigEndianBytes 2 image.names.length

def bytes (rest : List UInt8) : Bytes :=
  (image.header ++ rest).toArray

def table : NameTable :=
  ⟨image.names.map PascalName.text⟩

theorem length_header : image.header.length = 20 := by
  simp [header]

theorem read_eq (rest : List UInt8) :
    NameTable.read (image.bytes rest) =
      (NameTable.readNames (image.bytes rest) image.names.length 0 image.header.length).map .mk := by
  have hlt := image.length_lt
  have hpow : Nat.pow 256 2 = 65536 := rfl
  have hsize : 20 ≤ (image.bytes rest).size := by
    simp only [bytes, List.size_toArray, List.length_append, length_header]
    omega
  have hheader := (holds_append.1 (holds_toArray (image.header ++ rest))).1
  change (image.bytes rest).Holds 0 image.header at hheader
  simp only [header, holds_append, List.length_append, length_bigEndianBytes, Vector.length_toList,
    Nat.zero_add, Nat.reduceAdd] at hheader
  obtain ⟨⟨⟨⟨-, hfirst⟩, hsecond⟩, -⟩, hcount⟩ := hheader
  obtain ⟨_, h0⟩ := exists_unsigned (show 0 + 4 ≤ (image.bytes rest).size by omega)
  obtain ⟨_, h4⟩ := exists_unsigned (show 4 + 4 ≤ (image.bytes rest).size by omega)
  obtain ⟨_, h16⟩ := exists_unsigned (show 16 + 2 ≤ (image.bytes rest).size by omega)
  have hread : NameTable.read (image.bytes rest) = (do
      if image.size.toNat ≠ image.size.toNat then
        throw (.nameTableSize image.size.toNat image.size.toNat)
      return ⟨← NameTable.readNames (image.bytes rest) image.names.length 0 20⟩) := by
    simp only [NameTable.read, h0, h4, h16, unsigned_of_holds hfirst image.size.toNat_lt,
      unsigned_of_holds hsecond image.size.toNat_lt, unsigned_of_holds hcount (by omega),
      ChunkPart.reading_ok, ok_bind]
  rw [hread, if_neg (by simp), length_header]
  cases NameTable.readNames (image.bytes rest) image.names.length 0 20 <;> rfl

theorem read_eq_ok_iff (rest : List UInt8) (table : NameTable) :
    NameTable.read (image.bytes rest) = .ok table ↔
      ∃ names : List PascalName, names.length = image.names.length ∧ encodedAll names <+: rest ∧
        table = ⟨names.map PascalName.text⟩ := by
  have hmap {x : Except ChunkError (List String)} :
      x.map NameTable.mk = .ok table ↔ x = .ok table.names := by
    cases x with
    | error e => exact iff_of_false nofun nofun
    | ok texts =>
      constructor
      · intro h
        cases h
        rfl
      · intro h
        cases h
        rfl
  have hdata : (image.bytes rest).toList = image.header ++ rest := rfl
  rw [image.read_eq, hmap, NameTable.readNames_eq_ok_iff hdata]
  cases table with
  | mk texts => simp only [NameTable.mk.injEq]

end NameTableImage

/-- Whatever offset its header gives, a table is what stands directly behind the header. With a filler in
front of its names it is read back only if filler and names start with the very names, and if the names are
cut off, the reader fails at the one that the cut is in. -/
theorem NameTable.read_image_eq_ok_iff (image : NameTableImage) :
    (∀ filler, NameTable.read (image.bytes (filler ++ encodedAll image.names)) = .ok image.table ↔
      encodedAll image.names <+: filler ++ encodedAll image.names) ∧
    (∀ rest table, NameTable.read (image.bytes rest) = .ok table ↔
      ∃ names : List PascalName, names.length = image.names.length ∧ encodedAll names <+: rest ∧
        table = ⟨names.map PascalName.text⟩) ∧
    (∀ k < (encodedAll image.names).length, ∃ i e,
      NameTable.read (image.bytes ((encodedAll image.names).take k)) =
        .error (.truncated (.name i) e) ∧
      (encodedAll (image.names.take i)).length ≤ k ∧
      k < (encodedAll (image.names.take (i + 1))).length) ∧
    ∀ n ∈ image.names, n.text.toList.map Char.toNat = n.bytes.map UInt8.toNat := by
  refine ⟨fun filler => ?_, image.read_eq_ok_iff, fun k hk => ?_, fun n _ => n.map_toNat_text⟩
  · rw [image.read_eq_ok_iff]
    constructor
    · rintro ⟨names, -, hstart, hsame⟩
      have htexts : image.names.map PascalName.text = names.map PascalName.text :=
        congrArg NameTable.names hsame
      rwa [← (List.map_inj_right fun _ _ => eq_of_text).1 htexts] at hstart
    · exact fun hstart => ⟨image.names, rfl, hstart, rfl⟩
  · have hdata : (image.bytes ((encodedAll image.names).take k)).toList =
        image.header ++ (encodedAll image.names).take k := rfl
    obtain ⟨i, e, he, hcut⟩ := NameTable.readNames_take 0 hk hdata
    refine ⟨i, e, ?_, hcut⟩
    rw [image.read_eq, he, Nat.zero_add]
    rfl

/-- The name `x` with the offset 21 and a zero byte at 20: the zero is taken for the length of a name. -/
def NameTableImage.displaced : NameTableImage where
  words := .replicate _ 0
  size := 23
  namesOffset := 21
  names := [⟨[0x78], by decide⟩]
  length_lt := by decide

theorem NameTable.read_image_displaced :
    NameTable.read (NameTableImage.displaced.bytes ([0] ++ [1, 0x78])) = .ok ⟨[""]⟩ ∧
      NameTable.read (NameTableImage.displaced.bytes ([0] ++ [1, 0x78])) ≠ .ok ⟨["x"]⟩ ∧
      NameTable.read (NameTableImage.displaced.bytes [1, 0x78]) = .ok ⟨["x"]⟩ ∧
      ∃ i e, NameTable.read (NameTableImage.displaced.bytes [1]) = .error (.truncated (.name i) e) := by
  obtain ⟨hfiller, hrest, hcut, -⟩ := NameTable.read_image_eq_ok_iff .displaced
  refine ⟨(hrest _ _).2 ⟨[⟨[], by decide⟩], rfl, by decide, rfl⟩, mt (hfiller [0]).1 (by decide),
    (hfiller []).2 (by decide), ?_⟩
  obtain ⟨i, e, he, -⟩ := hcut 1 (by decide)
  exact ⟨i, e, he⟩

end LingoSource
