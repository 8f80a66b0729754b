import Sketchbook.Foundation.DecimalText
import Sketchbook.Foundation.TerminatedStrings

/-!
# The parameters of a Blynk command

A `BlynkParam` is a buffer of strings, each with a NUL behind it. An iterator points to a string,
and `++` goes behind its NUL. A `Param` is such a buffer to read: the memory that holds it, and
where it begins and ends in there. Reading behind the memory is `none`. A `Builder` is one to write:
a string that does not fit in is left out, and a number is printed as far as there is room, while
the length goes on.

A parameter that `Holds` strings has them at its iterators. `nth_eq` and `lookup_eq` are the two
forms of the operator `[]`, and `add_key` and the operator with a key are a table
(`lookup_addKeys`).
-/

set_option autoImplicit false
set_option relaxedAutoImplicit false

namespace Sketchbook.Blynk.Parameters

open Foundation.DecimalText Foundation.TerminatedStrings

/-- The codes of a text. -/
def ascii (characters : String) : List (BitVec 8) :=
  characters.toList.map fun character ↦ BitVec.ofNat 8 character.toNat

/-- `atoi`, which ends at the limits of a `long`. -/
def atoi (characters : List (BitVec 8)) : BitVec 32 :=
  BitVec.ofInt 32 (max (-2 ^ 31) (min (number characters) (2 ^ 31 - 1)))

theorem atoi_signedText (word : BitVec 32) : atoi (signedText word.toInt) = word := by
  have hle := BitVec.le_toInt word
  have hlt := BitVec.toInt_lt (x := word)
  rw [atoi, number_signedText, min_eq_left (Int.le_sub_one_of_lt hlt), max_eq_right hle,
    BitVec.ofInt_toInt]

/-! ### Reading -/

structure Param where
  memory : List (BitVec 8)
  first : ℕ
  last : ℕ

/-- `it.asStr()`. -/
def Param.str (param : Param) (iterator : ℕ) : Option (List (BitVec 8)) :=
  stringAt 0 param.memory iterator

/-- `it.asInt()`. -/
def Param.int (param : Param) (iterator : ℕ) : Option (BitVec 32) := (param.str iterator).map atoi

/-- `++it`. -/
def Param.succ (param : Param) (iterator : ℕ) : Option ℕ :=
  (param.str iterator).map fun string ↦ iterator + string.length + 1

/-- `asStr()` of the parameter itself. -/
def Param.asStr (param : Param) : Option (List (BitVec 8)) := param.str param.first

/-- `asInt()` of the parameter itself. -/
def Param.asInt (param : Param) : Option (BitVec 32) := param.int param.first

def Param.nthLoop (param : Param) : ℕ → ℤ → ℕ → Option (Option ℕ)
  | 0, _, _ => some none
  | turns + 1, index, iterator =>
    if iterator < param.last then
      if index = 0 then some (some iterator)
      else (param.succ iterator).bind (param.nthLoop turns (index - 1))
    else some none

/-- `operator[](int index)`, which is an iterator or the invalid one. -/
def Param.nth (param : Param) (index : ℤ) : Option (Option ℕ) :=
  param.nthLoop (param.last - param.first) index param.first

def Param.lookupLoop (param : Param) (key : List (BitVec 8)) : ℕ → ℕ → Option (Option ℕ)
  | 0, _ => some none
  | turns + 1, iterator =>
    if iterator < param.last then
      (param.str iterator).bind fun name ↦
        (param.succ iterator).bind fun value ↦
          if name = key then some (some value)
          else if param.last ≤ value then some none
          else (param.succ value).bind (param.lookupLoop key turns)
    else some none

/-- `operator[](const char* key)`. -/
def Param.lookup (param : Param) (key : List (BitVec 8)) : Option (Option ℕ) :=
  param.lookupLoop key (param.last - param.first) param.first

/-- `asStr()` of what an operator `[]` returns, if that is valid. -/
def Param.deref (param : Param) : Option ℕ → Option (Option (List (BitVec 8)))
  | some iterator => (param.str iterator).map some
  | none => some none

/-- `param[index].asStr()`. -/
def Param.stringAt (param : Param) (index : ℤ) : Option (Option (List (BitVec 8))) :=
  (param.nth index).bind param.deref

/-- `param[key].asStr()`. -/
def Param.valueOf (param : Param) (key : List (BitVec 8)) : Option (Option (List (BitVec 8))) :=
  (param.lookup key).bind param.deref

/-! ### Writing -/

/-- What a parameter is given: a number or a text. -/
inductive Data
  | number (value : BitVec 32)
  | text (characters : List (BitVec 8))

/-- The string that is written for it. -/
def Data.string : Data → List (BitVec 8)
  | .number value => signedText value.toInt
  | .text characters => characters

/-- A buffer that is being filled. The length can pass the end of the buffer. -/
structure Builder where
  content : List (BitVec 8)
  len : ℕ

def Builder.empty : Builder := ⟨[], 0⟩

/-- `add(const void* b, size_t l)`. -/
def Builder.addBytes (size : ℕ) (bytes : List (BitVec 8)) (builder : Builder) : Builder :=
  if size < builder.len + bytes.length then builder
  else ⟨builder.content ++ bytes, builder.len + bytes.length⟩

/-- `snprintf(buff+len, buff_size-len, "%i", value)`. Behind the end the room is a huge number. -/
def Builder.addInt (size : ℕ) (value : BitVec 32) (builder : Builder) : Option Builder :=
  if size < builder.len then none
  else
    let digits := signedText value.toInt
    let room := size - builder.len
    let printed := if room = 0 then [] else digits.take (room - 1) ++ [0]
    some ⟨builder.content ++ printed, builder.len + digits.length + 1⟩

def Builder.add (size : ℕ) (builder : Builder) : Data → Option Builder
  | .number value => builder.addInt size value
  | .text characters => some (builder.addBytes size (characters ++ [0]))

/-- Several calls of `add`. -/
def build (size : ℕ) (data : List Data) : Option Builder :=
  data.foldlM (Builder.add size) Builder.empty

/-- The first bytes of the buffer. -/
def Builder.bytes (builder : Builder) (count : ℕ) : Option (List (BitVec 8)) :=
  if count ≤ builder.content.length then some (builder.content.take count) else none

def Builder.param (builder : Builder) : Param := ⟨builder.content, 0, builder.len⟩

/-! ### What is written -/

/-- A text has no NUL in it. -/
def Data.Clean : Data → Prop
  | .number _ => True
  | .text characters => 0 ∉ characters

instance Data.decidableClean : DecidablePred Data.Clean
  | .number _ => .isTrue trivial
  | .text characters => inferInstanceAs (Decidable (0 ∉ characters))

theorem Data.Clean.notMem {data : Data} (h : data.Clean) : 0 ∉ data.string := by
  cases data with
  | number value => exact zero_notMem_signedText value.toInt
  | text characters => exact h

/-- A buffer that holds strings and nothing else. -/
def filled (strings : List (List (BitVec 8))) : Builder :=
  ⟨joined 0 strings, (joined (0 : BitVec 8) strings).length⟩

theorem joined_append_singleton (strings : List (List (BitVec 8))) (string : List (BitVec 8)) :
    joined 0 (strings ++ [string]) = joined 0 strings ++ (string ++ [0]) := by
  rw [joined, List.flatMap_append, List.flatMap_singleton, ← joined]

/-- What fits in is added as its string. -/
theorem add_filled {size : ℕ} {strings : List (List (BitVec 8))} {data : Data}
    (h : (joined 0 (strings ++ [data.string])).length ≤ size) :
    (filled strings).add size data = some (filled (strings ++ [data.string])) := by
  rw [joined_append_singleton, List.length_append] at h
  rw [filled, filled, joined_append_singleton, List.length_append]
  cases data with
  | number value =>
    rw [Data.string, List.length_append, List.length_singleton] at h
    have hinside : ¬ size < (joined (0 : BitVec 8) strings).length := by omega
    rw [Builder.add, Builder.addInt]
    dsimp only
    rw [if_neg hinside, if_neg (by omega), List.take_of_length_le (by omega), Data.string,
      List.length_append, List.length_singleton, Nat.add_assoc]
  | text characters =>
    rw [Data.string] at h
    rw [Builder.add, Builder.addBytes, if_neg (Nat.not_lt.mpr h), Data.string]

theorem joined_prefix_length (terminator : BitVec 8) (before after : List (List (BitVec 8))) :
    (joined terminator before).length ≤ (joined terminator (before ++ after)).length := by
  rw [joined, joined, List.flatMap_append, List.length_append]
  exact Nat.le_add_right _ _

/-- Several calls of `add` make a buffer of the strings, if these fit in. -/
theorem foldlM_add_filled {size : ℕ} (data : List Data) (strings : List (List (BitVec 8)))
    (h : (joined 0 (strings ++ data.map Data.string)).length ≤ size) :
    data.foldlM (Builder.add size) (filled strings) =
      some (filled (strings ++ data.map Data.string)) := by
  induction data generalizing strings with
  | nil => rw [List.map_nil, List.append_nil]; rfl
  | cons first rest ih =>
    have hsplit : strings ++ (first :: rest).map Data.string =
        strings ++ [first.string] ++ rest.map Data.string := by
      rw [List.map_cons, List.append_assoc, List.singleton_append]
    rw [hsplit] at h ⊢
    rw [List.foldlM_cons, add_filled (le_trans (joined_prefix_length 0 _ _) h)]
    exact ih _ h

theorem build_eq {size : ℕ} {data : List Data}
    (h : (joined 0 (data.map Data.string)).length ≤ size) :
    build size data = some (filled (data.map Data.string)) := by
  have hfold : data.foldlM (Builder.add size) (filled []) = _ :=
    foldlM_add_filled data [] (by rwa [List.nil_append])
  rwa [List.nil_append] at hfold

/-! ### What is read -/

/-- The strings of a parameter, from one of them on and up to the one that its end lies at. -/
structure Param.Holds (param : Param) (strings : List (List (BitVec 8))) (start limit : ℕ) :
    Prop where
  memory : param.memory = joined 0 strings
  clean : ∀ string ∈ strings, 0 ∉ string
  first : param.first = offset strings start
  last : ∀ index ≤ strings.length, offset strings index < param.last ↔ index < limit
  start_le : start ≤ limit
  limit_le : limit ≤ strings.length

variable {param : Param} {strings : List (List (BitVec 8))} {start limit : ℕ}

namespace Param.Holds

theorem str_offset (h : param.Holds strings start limit) (index : ℕ) :
    param.str (offset strings index) = strings[index]? := by
  rw [Param.str, h.memory, stringAt_offset h.clean]

theorem succ_offset (h : param.Holds strings start limit) (index : ℕ) :
    param.succ (offset strings index) = strings[index]?.map fun _ ↦ offset strings (index + 1) := by
  rw [Param.succ, h.str_offset]
  cases hstring : strings[index]? with
  | none => rfl
  | some string => rw [Option.map_some, Option.map_some, offset_succ hstring]

theorem succ_of_lt (h : param.Holds strings start limit) {index : ℕ}
    (hindex : index < strings.length) :
    param.succ (offset strings index) = some (offset strings (index + 1)) := by
  rw [h.succ_offset, List.getElem?_eq_getElem hindex, Option.map_some]

/-- A loop over the strings makes at most as many turns as the parameter has bytes. -/
theorem turns (h : param.Holds strings start limit) : limit - start ≤ param.last - param.first := by
  have hsteps : ∀ count, start + count ≤ limit → offset strings start + count ≤
      offset strings (start + count) := by
    intro count
    induction count with
    | zero => exact fun _ ↦ le_rfl
    | succ count ih =>
      intro hcount
      have hlimit := h.limit_le
      have hnext := offset_succ (List.getElem?_eq_getElem
        (show start + count < strings.length by omega))
      have hbefore := ih (by omega)
      rw [← Nat.add_assoc start count 1, hnext]
      omega
  rcases Nat.eq_zero_or_pos (limit - start) with hzero | hpos
  · rw [hzero]
    exact Nat.zero_le _
  · have hlimit := h.limit_le
    have hstep := hsteps (limit - start - 1) (by omega)
    have hlast := (h.last (start + (limit - start - 1)) (by omega)).mpr (by omega)
    rw [h.first]
    omega

theorem nthLoop_eq (h : param.Holds strings start limit) (index : ℕ) {turns position : ℕ}
    (hposition : position ≤ limit) (hturns : limit - position ≤ turns) :
    param.nthLoop turns index (offset strings position) =
      some (if position + index < limit then some (offset strings (position + index))
        else none) := by
  have hlast := h.last position (hposition.trans h.limit_le)
  have hlimit := h.limit_le
  induction turns generalizing index position with
  | zero => rw [Param.nthLoop, if_neg (by omega)]
  | succ turns ih =>
    rw [Param.nthLoop]
    split
    · next hinside =>
      have hlt := hlast.mp hinside
      cases index with
      | zero => rw [Nat.cast_zero, if_pos rfl, Nat.add_zero, if_pos hlt]
      | succ index =>
        have hne : ((index + 1 : ℕ) : ℤ) ≠ 0 := Int.natCast_ne_zero.mpr (Nat.succ_ne_zero _)
        have hpred : ((index + 1 : ℕ) : ℤ) - 1 = index := by omega
        rw [if_neg hne, h.succ_of_lt (by omega), Option.bind_some, hpred,
          ih index (by omega) (by omega) (h.last _ (by omega)), Nat.add_right_comm, Nat.add_assoc]
    · next houtside =>
      rw [if_neg fun hlt ↦ houtside (hlast.mpr (by omega))]

/-- The operator with an index finds the string with that number. -/
theorem nth_eq (h : param.Holds strings start limit) (index : ℕ) :
    param.nth index =
      some (if start + index < limit then some (offset strings (start + index)) else none) := by
  rw [Param.nth, h.first]
  exact h.nthLoop_eq index h.start_le (h.first ▸ h.turns)

/-- The names are at every second place, and the first of them that is the key counts. -/
def keyIndex (key : List (BitVec 8)) : List (List (BitVec 8)) → Option ℕ
  | [] => none
  | [name] => if name = key then some 0 else none
  | name :: _ :: rest => if name = key then some 0 else (keyIndex key rest).map (· + 2)

theorem drop_take_of_lt {index : ℕ} (hindex : index < limit) (hlimit : limit ≤ strings.length) :
    (strings.take limit).drop index =
      strings[index] :: (strings.take limit).drop (index + 1) := by
  have hlt : index < (strings.take limit).length := by
    rw [List.length_take]
    omega
  rw [List.drop_eq_getElem_cons hlt, List.getElem_take]

theorem lookupLoop_eq (h : param.Holds strings start limit) (key : List (BitVec 8))
    {turns position : ℕ} (hposition : position ≤ limit) (hturns : limit - position ≤ turns) :
    param.lookupLoop key turns (offset strings position) =
      some ((keyIndex key ((strings.take limit).drop position)).map fun index ↦
        offset strings (position + index + 1)) := by
  have hlimit := h.limit_le
  have hlast := h.last position (hposition.trans hlimit)
  induction turns generalizing position with
  | zero =>
    rw [List.drop_eq_nil_of_le (by rw [List.length_take]; omega)]
    rfl
  | succ turns ih =>
    rw [Param.lookupLoop]
    split
    · next hinside =>
      have hlt := hlast.mp hinside
      have hbound : position < strings.length := by omega
      have hnext := h.last (position + 1) (by omega)
      rw [h.str_offset, List.getElem?_eq_getElem hbound, Option.bind_some, h.succ_of_lt hbound,
        Option.bind_some, drop_take_of_lt hlt hlimit]
      by_cases hsecond : position + 1 < limit
      · rw [drop_take_of_lt hsecond hlimit, keyIndex]
        split
        · rfl
        · rw [if_neg (Nat.not_le.mpr (hnext.mpr hsecond)), h.succ_of_lt (by omega),
            Option.bind_some, ih (by omega) (by omega) (h.last _ (by omega)), Option.map_map]
          refine congrArg some (congrArg (Option.map · _) (funext fun index ↦ ?_))
          exact congrArg (offset strings) (by simp only; omega)
      · rw [List.drop_eq_nil_of_le (by rw [List.length_take]; omega), keyIndex]
        split
        · rfl
        · rw [if_pos (Nat.not_lt.mp fun hlt ↦ hsecond (hnext.mp hlt))]
          rfl
    · next houtside =>
      have hge : limit ≤ position := Nat.not_lt.mp fun hlt ↦ houtside (hlast.mpr hlt)
      rw [List.drop_eq_nil_of_le (by rw [List.length_take]; omega)]
      rfl

/-- The operator with a key finds the string behind the first name that is the key. -/
theorem lookup_eq (h : param.Holds strings start limit) (key : List (BitVec 8)) :
    param.lookup key =
      some ((keyIndex key ((strings.take limit).drop start)).map fun index ↦
        offset strings (start + index + 1)) := by
  rw [Param.lookup, h.first]
  exact h.lookupLoop_eq key h.start_le (h.first ▸ h.turns)

end Param.Holds

/-- A buffer that has been filled holds its strings. -/
theorem holds_filled (hclean : ∀ string ∈ strings, 0 ∉ string) :
    (filled strings).param.Holds strings 0 strings.length where
  memory := rfl
  clean := hclean
  first := rfl
  last index hindex := by
    have hend := offset_of_length_le (0 : BitVec 8) (le_refl strings.length)
    change offset strings index < (joined (0 : BitVec 8) strings).length ↔ _
    rw [← hend]
    constructor
    · exact fun h ↦ Nat.lt_of_not_le fun hle ↦ absurd (offset_mono strings hle) (Nat.not_le.mpr h)
    · intro hlt
      have hnext := offset_succ (List.getElem?_eq_getElem hlt)
      have hle := offset_mono strings (Nat.succ_le_of_lt hlt)
      rw [Nat.succ_eq_add_one] at hle
      omega
  start_le := Nat.zero_le _
  limit_le := le_rfl

/-! ### Tables -/

/-- What `add_key` adds. -/
def entries (pairs : List (List (BitVec 8) × Data)) : List Data :=
  pairs.flatMap fun pair ↦ [.text pair.1, pair.2]

/-- The names of a table are at every second place, so the first pair with the key is found. -/
theorem keyIndex_entries (key : List (BitVec 8)) (pairs : List (List (BitVec 8) × Data)) :
    match Param.Holds.keyIndex key ((entries pairs).map Data.string),
      pairs.find? (·.1 = key) with
    | some index, some pair =>
      ((entries pairs).map Data.string)[index + 1]? = some pair.2.string
    | none, none => True
    | _, _ => False := by
  induction pairs with
  | nil => trivial
  | cons pair pairs ih =>
    have hstrings : (entries (pair :: pairs)).map Data.string =
        pair.1 :: pair.2.string :: (entries pairs).map Data.string := rfl
    rw [hstrings, Param.Holds.keyIndex]
    by_cases hkey : pair.1 = key
    · rw [if_pos hkey, List.find?_cons_of_pos (by simpa using hkey)]
      rfl
    · rw [if_neg hkey, List.find?_cons_of_neg (by simpa using hkey)]
      revert ih
      cases Param.Holds.keyIndex key ((entries pairs).map Data.string) <;>
        cases pairs.find? (·.1 = key) <;> exact id

/-- The pairs that `add_key` has put in a buffer are found by their keys: the value of the first
pair with the key, and nothing for a key that is in no pair. -/
theorem lookup_addKeys {size : ℕ} {pairs : List (List (BitVec 8) × Data)}
    (hclean : ∀ pair ∈ pairs, 0 ∉ pair.1 ∧ pair.2.Clean)
    (hfits : (joined 0 ((entries pairs).map Data.string)).length ≤ size)
    (key : List (BitVec 8)) :
    (build size (entries pairs)).bind (fun builder ↦ builder.param.valueOf key) =
      some ((pairs.find? (·.1 = key)).map fun pair ↦ pair.2.string) := by
  have hstrings : ∀ string ∈ (entries pairs).map Data.string, 0 ∉ string := by
    intro string hmem
    obtain ⟨data, hdata, rfl⟩ := List.mem_map.mp hmem
    obtain ⟨pair, hpair, hdata⟩ := List.mem_flatMap.mp hdata
    obtain ⟨hname, hvalue⟩ := hclean pair hpair
    rcases List.mem_cons.mp hdata with rfl | hdata
    · exact hname
    · rw [List.mem_singleton.mp hdata]
      exact hvalue.notMem
  have hholds := holds_filled hstrings
  have hindex := keyIndex_entries key pairs
  rw [build_eq hfits, Option.bind_some, Param.valueOf, hholds.lookup_eq, Option.bind_some,
    List.take_length, List.drop_zero]
  revert hindex
  cases Param.Holds.keyIndex key ((entries pairs).map Data.string) with
  | none =>
    cases pairs.find? (·.1 = key) with
    | none => exact fun _ ↦ rfl
    | some pair => exact False.elim
  | some index =>
    cases pairs.find? (·.1 = key) with
    | none => exact False.elim
    | some pair =>
      intro hvalue
      rw [Option.map_some, Option.map_some, Param.deref, hholds.str_offset, Nat.zero_add, hvalue,
        Option.map_some]

theorem lookup_addKeys_twice :
    (build 32 (entries [(ascii "t", .number 21), (ascii "h", .number 40),
        (ascii "t", .number 7)])).bind (fun builder ↦ builder.param.valueOf (ascii "t")) =
      some (some (ascii "21")) :=
  (lookup_addKeys (by decide) (by decide) (ascii "t")).trans (by decide)

end Sketchbook.Blynk.Parameters
