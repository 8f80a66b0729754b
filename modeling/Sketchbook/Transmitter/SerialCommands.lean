import Mathlib.Data.BitVec
import Mathlib.Data.List.ReduceOption
import Sketchbook.Arduino.Text
import Sketchbook.Foundation.Memory
import Sketchbook.Foundation.TransitionSystem

/-!
# The serial commands of sketch_jan19b

sketch_jan19b switches sockets by commands from the serial line: a `B` with binary digits up to a
newline, which it sends as they are, and pairs of digits for a socket and its state. `loop` takes
one character of a command at a time, and the digits of a `B` command all at once with
`readBytesUntil`, which writes over the first cells of `binary_data` and adds no NUL.

`binary_data` has 24 cells, none for a NUL, and nothing clears it. What is sent are the cells up to
the first NUL, so what a command is followed by depends on all commands before it:
`run_commandInvariant` says that it is what they have left in the cells behind. `uncontaminated_iff`
says in which runs every command is sent as it was received.
-/

set_option autoImplicit false
set_option relaxedAutoImplicit false

namespace Sketchbook.Transmitter.SerialCommands

open Arduino.Text Foundation.Memory Foundation.TransitionSystem

/-! ### The sketch -/

/-- `sizeof(serial_data)`. -/
def serialDataSize : ℕ := 2

/-- `sizeof(binary_data)`. -/
def binaryDataSize : ℕ := 24

/-- What a read of the serial line finds: a character, or `none` if none comes in time. -/
abbrev SerialRead := Option Char

/-- The globals, and what the serial line is going to bring. `serialData` and `binaryData` are the
memory from the first cell of the arrays on. -/
structure CommandState where
  serial : List SerialRead
  serialPos : ℕ
  serialData : ℕ → Char
  binaryData : ℕ → Char

/-- What a call of `loop` meets: the length and value of a received code, and the memory behind
`binary_data`. -/
structure Pass where
  reception : Option (ℕ × BitVec 32)
  behind : ℕ → Char

/-- What `loop` prints and sends. A pointer is the memory from its first cell on. -/
inductive Output
  | text (text : String)
  | decimal (number : ℕ)
  | binary (value : BitVec 32)
  | hex (character : Char)
  | characters (pointer : ℕ → Char)
  | newline
  | send (pointer : ℕ → Char)

/-- `Stream::readBytesUntil(terminator, buffer, length)`: the characters that it writes to the
buffer, and what is left to read. -/
def readBytesUntil (terminator : Char) : ℕ → List SerialRead → List Char × List SerialRead
  | 0, serial => ([], serial)
  | _ + 1, [] => ([], [])
  | _ + 1, none :: serial => ([], serial)
  | length + 1, some character :: serial =>
    if character = terminator then ([], serial)
    else
      let rest := readBytesUntil terminator length serial
      (character :: rest.1, rest.2)

/-- The pointer `binary_data`. -/
def binaryPointer (pass : Pass) (s : CommandState) (index : ℕ) : Char :=
  if index < binaryDataSize then s.binaryData index else pass.behind (index - binaryDataSize)

/-- A `B` and the digits behind it. -/
def binaryCommand (pass : Pass) (s : CommandState) : CommandState × List Output :=
  let read := readBytesUntil '\n' binaryDataSize s.serial
  let s := { s with serial := read.2, binaryData := stored s.binaryData read.1 }
  (s, [.text "send B", .characters (binaryPointer pass s), .newline,
    .send (binaryPointer pass s)])

/-- A digit of a socket or of its state. -/
def digitCommand (input : Char) (s : CommandState) : CommandState :=
  { s with
    serialData := Function.update s.serialData s.serialPos (Char.ofNat (input.toNat - 0x30))
    serialPos := s.serialPos + 1 }

/-- The `if` over the character that was read. -/
def command (pass : Pass) (input : Char) (s : CommandState) : CommandState × List Output :=
  if input = 'B' then binaryCommand pass s
  else if 0x30 ≤ input.toNat ∧ input.toNat ≤ 0x39 then (digitCommand input s, [])
  else (s, [.text "ignore: ", .hex input, .newline])

/-- A string literal. -/
def literal (text : String) : ℕ → Char := stored (fun _ ↦ nul) text.toList

/-- The `switch` over the socket that is to be switched on. -/
def switchOn (socket : ℕ) : List Output :=
  match socket with
  | 1 => [.send (literal "110101011101010000001100")]
  | 2 => [.send (literal "110101010111010000001100")]
  | 3 => [.send (literal "110101010101110000001100")]
  | _ => [.text "invalid switch on number ", .decimal socket, .newline]

/-- The `switch` over the socket that is to be switched off. -/
def switchOff (socket : ℕ) : List Output :=
  match socket with
  | 1 => [.send (literal "110101011101010000000011")]
  | 2 => [.send (literal "110101010111010000000011")]
  | 3 => [.send (literal "110101010101110000000011")]
  | _ => [.text "invalid switch off number ", .decimal socket, .newline]

/-- The `if` over a complete pair of digits. -/
def ifPair (s : CommandState) : CommandState × List Output :=
  if s.serialPos = 2 then
    let socket := (s.serialData 0).toNat
    let on := s.serialData 1 ≠ nul
    ({ s with serialPos := 0 },
      [.text "socket: ", .decimal socket, .text " state: ", .text (if on then "on" else "off"),
        .newline] ++ if on then switchOn socket else switchOff socket)
  else (s, [])

/-- What `loop` prints of a received code. -/
def printReception : Option (ℕ × BitVec 32) → List Output
  | some (bitlength, value) => [.decimal bitlength, .text " bits ", .binary value, .newline]
  | none => []

/-- `loop`, with what it prints and sends. A `none` is a call that finds no character to read. -/
def loop (pass : Pass) (s : CommandState) : CommandState × List Output :=
  match s.serial with
  | some input :: serial =>
    let handled := command pass input { s with serial := serial }
    let completed := ifPair handled.1
    (completed.1, printReception pass.reception ++ handled.2 ++ completed.2)
  | none :: serial => ({ s with serial := serial }, printReception pass.reception)
  | [] => (s, printReception pass.reception)

/-- The sketch behind `setup`, with what the serial line is going to bring. -/
def afterSetup (serial : List SerialRead) : CommandState := ⟨serial, 0, fun _ ↦ nul, fun _ ↦ nul⟩

/-- The runs of the sketch, for every stream of serial bytes. -/
def remote : System CommandState Pass where
  initial s := ∃ serial, s = afterSetup serial
  step s pass := some (loop pass s).1

/-! ### What is received, sent and indexed -/

/-- The characters that the serial line brings up to a newline, at most as many as `binary_data` has
cells. A read that finds nothing in time ends them as well. -/
def received (serial : List SerialRead) : List Char :=
  (serial.takeWhile fun read ↦ read ≠ none ∧ read ≠ some '\n').reduceOption.take binaryDataSize

/-- The characters received behind the `B` that the next call of `loop` reads, if it reads one. -/
def binaryText (s : CommandState) : Option (List Char) :=
  match s.serial with
  | some input :: serial => if input = 'B' then some (received serial) else none
  | _ => none

/-- The index at which the next call of `loop` writes to `serial_data`, if it reads a digit. -/
def digitIndex (s : CommandState) : Option ℕ :=
  match s.serial with
  | some input :: _ =>
    if input ≠ 'B' ∧ 0x30 ≤ input.toNat ∧ input.toNat ≤ 0x39 then some s.serialPos else none
  | _ => none

/-- The pointers that are passed to `mySwitch.send`. -/
def sends (outputs : List Output) : List (ℕ → Char) :=
  outputs.filterMap fun output ↦ match output with
    | .send pointer => some pointer
    | _ => none

/-- The `B` commands of a trace, newest first. -/
def commands (trace : List (Transition CommandState Pass)) : List (List Char) :=
  trace.filterMap fun t ↦ binaryText t.before

/-- A `B` command is sent as it was received. -/
def SendsExactly (t : Transition CommandState Pass) : Prop :=
  ∀ text ∈ binaryText t.before, ∃ pointer,
    sends (loop t.label t.before).2 = [pointer] ∧ IsCString pointer text

/-- Every `B` command is sent as it was received, and every digit goes to a cell of
`serial_data`. -/
def Uncontaminated (trace : List (Transition CommandState Pass)) : Prop :=
  ∀ t ∈ trace, SendsExactly t ∧ ∀ index ∈ digitIndex t.before, index < serialDataSize

/-! ### One call of loop -/

variable {s : CommandState} {serial : List SerialRead} {pass : Pass}

theorem readBytesUntil_eq (length : ℕ) (serial : List SerialRead) :
    (readBytesUntil '\n' length serial).1 =
      (serial.takeWhile fun read ↦ read ≠ none ∧ read ≠ some '\n').reduceOption.take length := by
  fun_induction readBytesUntil '\n' length serial with
  | case1 serial => rw [List.take_zero]
  | case2 length => rfl
  | case3 length serial => rfl
  | case4 length serial => rfl
  | case5 length character serial h rest ih =>
    simp only [rest]
    simp [ih, h]

theorem length_received_le (serial : List SerialRead) :
    (received serial).length ≤ binaryDataSize := by
  rw [received, List.length_take]
  exact Nat.min_le_left _ _

theorem ifPair_of_lt (h : s.serialPos < serialDataSize) : ifPair s = (s, []) :=
  if_neg (Nat.ne_of_lt h)

theorem sends_printReception (reception : Option (ℕ × BitVec 32)) :
    sends (printReception reception) = [] := by
  cases reception with
  | none => rfl
  | some code => rfl

/-- A `B` command as `loop` handles it. -/
theorem loop_of_binary (hserial : s.serial = some 'B' :: serial)
    (hpos : s.serialPos < serialDataSize) (pass : Pass) :
    (loop pass s).1.serialPos = s.serialPos ∧
      (loop pass s).1.binaryData = stored s.binaryData (received serial) ∧
      sends (loop pass s).2 = [binaryPointer pass (loop pass s).1] := by
  have hpair : ifPair (binaryCommand pass { s with serial := serial }).1 =
      ((binaryCommand pass { s with serial := serial }).1, []) := ifPair_of_lt hpos
  rw [loop, hserial]
  simp only [command, if_pos, hpair]
  refine ⟨rfl, congrArg (stored s.binaryData) (readBytesUntil_eq _ _), ?_⟩
  rw [List.append_nil, sends, List.filterMap_append, ← sends, sends_printReception]
  rfl

/-- The case that `binaryText` is about. -/
theorem binaryText_eq_some_iff {text : List Char} :
    binaryText s = some text ↔
      ∃ serial, s.serial = some 'B' :: serial ∧ received serial = text := by
  unfold binaryText
  split
  · rename_i input serial hserial
    rw [hserial]
    by_cases hinput : input = 'B'
    · simp [hinput]
    · simp [hinput]
  · rename_i hserial
    simp only [reduceCtorEq, false_iff]
    rintro ⟨serial, heq, -⟩
    exact hserial _ _ heq

/-- A pair of digits is complete with the second, and then the next digit is a first one. -/
theorem ifPair_serialPos (h : s.serialPos ≤ serialDataSize) :
    (ifPair s).1.serialPos < serialDataSize ∧ (ifPair s).1.binaryData = s.binaryData := by
  unfold ifPair
  split_ifs with hpair
  · exact ⟨Nat.zero_lt_two, rfl⟩
  · exact ⟨Nat.lt_of_le_of_ne h hpair, rfl⟩

/-- Nothing but a `B` command changes `binary_data`. -/
theorem loop_of_not_binary (htext : binaryText s = none) (hpos : s.serialPos < serialDataSize)
    (pass : Pass) :
    (loop pass s).1.serialPos < serialDataSize ∧ (loop pass s).1.binaryData = s.binaryData := by
  unfold loop
  split
  · rename_i input serial hserial
    have hinput : input ≠ 'B' := by
      rintro rfl
      rw [binaryText_eq_some_iff.mpr ⟨serial, hserial, rfl⟩] at htext
      exact absurd htext (Option.some_ne_none _)
    rw [command, if_neg hinput]
    split_ifs with hdigit
    · exact ifPair_serialPos (s := digitCommand input { s with serial := serial }) hpos
    · exact ifPair_serialPos (s := { s with serial := serial }) (Nat.le_of_lt hpos)
  · exact ⟨hpos, rfl⟩
  · exact ⟨hpos, rfl⟩

/-! ### Runs -/

/-- What holds when these `B` commands have been read, newest first: the next digit has a cell in
`serial_data`, and `binary_data` holds what the commands have left there. -/
structure CommandInvariant (texts : List (List Char)) (s : CommandState) : Prop where
  serialPos_lt : s.serialPos < serialDataSize
  binaryData : s.binaryData = overwritten (fun _ ↦ nul) texts
  length_le : ∀ text ∈ texts, text.length ≤ binaryDataSize

variable {texts : List (List Char)} {text : List Char}
variable {trace : List (Transition CommandState Pass)}

theorem commands_cons_of_none {t : Transition CommandState Pass} (h : binaryText t.before = none) :
    commands (t :: trace) = commands trace := by
  rw [commands, List.filterMap_cons, h]
  rfl

theorem commands_cons_of_some {t : Transition CommandState Pass}
    (h : binaryText t.before = some text) : commands (t :: trace) = text :: commands trace := by
  rw [commands, List.filterMap_cons, h]
  rfl

theorem commandInvariant_afterSetup (serial : List SerialRead) :
    CommandInvariant [] (afterSetup serial) := by
  refine ⟨Nat.zero_lt_two, rfl, ?_⟩
  exact fun text hmem ↦ absurd hmem List.not_mem_nil

theorem CommandInvariant.binary (h : CommandInvariant texts s) (htext : binaryText s = some text)
    (pass : Pass) : CommandInvariant (text :: texts) (loop pass s).1 := by
  obtain ⟨serial, hserial, rfl⟩ := binaryText_eq_some_iff.mp htext
  obtain ⟨hpos, hdata, -⟩ := loop_of_binary hserial h.serialPos_lt pass
  refine ⟨hpos ▸ h.serialPos_lt, ?_, List.forall_mem_cons.mpr ⟨length_received_le _, h.length_le⟩⟩
  rw [hdata, h.binaryData, overwritten]

theorem CommandInvariant.other (h : CommandInvariant texts s) (htext : binaryText s = none)
    (pass : Pass) : CommandInvariant texts (loop pass s).1 := by
  obtain ⟨hpos, hdata⟩ := loop_of_not_binary htext h.serialPos_lt pass
  exact ⟨hpos, hdata.trans h.binaryData, h.length_le⟩

/-- In every run `binary_data` holds what the `B` commands so far have left there. -/
theorem run_commandInvariant (hrun : Run remote trace s) :
    CommandInvariant (commands trace) s := by
  induction hrun with
  | start h =>
    obtain ⟨serial, rfl⟩ := h
    exact commandInvariant_afterSetup serial
  | @step trace s next pass hrun hstep ih =>
    obtain rfl : (loop pass s).1 = next := Option.some.inj hstep
    cases htext : binaryText s with
    | none =>
      rw [commands_cons_of_none htext]
      exact ih.other htext pass
    | some text =>
      rw [commands_cons_of_some htext]
      exact ih.binary htext pass

/-! ### What is sent -/

/-- The characters of a command are the C string at `binary_data` exactly when they hold no NUL and
one stands behind them. -/
theorem isCString_binaryPointer_iff (pass : Pass) {memory : ℕ → Char}
    (hdata : s.binaryData = stored memory text)
    (hlength : text.length ≤ binaryDataSize) :
    IsCString (binaryPointer pass s) text ↔
      nul ∉ text ∧ (text.length < binaryDataSize → memory text.length = nul) ∧
        (text.length = binaryDataSize → pass.behind 0 = nul) := by
  have hcells : (List.range text.length).map (binaryPointer pass s) = text := by
    have hmap : (List.range text.length).map (binaryPointer pass s) =
        (List.range text.length).map (stored memory text) := by
      apply List.map_congr_left
      intro index hmem
      rw [binaryPointer, if_pos (Nat.lt_of_lt_of_le (List.mem_range.mp hmem) hlength), hdata]
    rw [hmap, map_range_stored memory le_rfl, List.take_length]
  have hbehind : binaryPointer pass s text.length = nul ↔
      (text.length < binaryDataSize → memory text.length = nul) ∧
        (text.length = binaryDataSize → pass.behind 0 = nul) := by
    rcases Nat.lt_or_eq_of_le hlength with hlt | heq
    · rw [binaryPointer, if_pos hlt, hdata, stored_of_le _ le_rfl]
      simp [hlt, Nat.ne_of_lt hlt]
    · rw [binaryPointer, heq, if_neg (Nat.lt_irrefl _), Nat.sub_self]
      simp
  exact ⟨fun h ↦ ⟨h.nul_notMem, hbehind.mp h.terminated⟩,
    fun h ↦ ⟨hcells, h.1, hbehind.mpr h.2⟩⟩

/-- Behind commands without NUL, a command is sent as it was received exactly when it holds no NUL
either, no earlier one was longer, and a NUL stands behind the array if the command fills it. -/
theorem sendsExactly_iff (h : CommandInvariant texts s) (hclean : ∀ text ∈ texts, nul ∉ text)
    (next : CommandState) :
    SendsExactly ⟨s, pass, next⟩ ↔ ∀ text ∈ binaryText s, (∀ earlier ∈ texts,
      earlier.length ≤ text.length) ∧ nul ∉ text ∧
        (text.length = binaryDataSize → pass.behind 0 = nul) := by
  unfold SendsExactly
  refine forall₂_congr fun text htext ↦ ?_
  have htext : binaryText s = some text := htext
  obtain ⟨serial, hserial, rfl⟩ := binaryText_eq_some_iff.mp htext
  obtain ⟨-, hdata, hsends⟩ := loop_of_binary hserial h.serialPos_lt pass
  have hlength := length_received_le serial
  have hearlier : (∀ earlier ∈ texts, earlier.length ≤ (received serial).length) ↔
      ((received serial).length < binaryDataSize →
        s.binaryData (received serial).length = nul) := by
    rw [h.binaryData, overwritten_eq_blank_iff hclean]
    refine ⟨fun hle _ ↦ hle, fun hle earlier hmem ↦ ?_⟩
    rcases Nat.lt_or_eq_of_le hlength with hlt | heq
    · exact hle hlt earlier hmem
    · exact heq ▸ h.length_le earlier hmem
  have hstring := isCString_binaryPointer_iff pass hdata hlength
  rw [hearlier]
  constructor
  · rintro ⟨pointer, hpointer, hexact⟩
    obtain rfl := List.singleton_inj.mp (hsends.symm.trans hpointer)
    obtain ⟨hnul, hbefore, hbehind⟩ := hstring.mp hexact
    exact ⟨hbefore, hnul, hbehind⟩
  · rintro ⟨hbefore, hnul, hbehind⟩
    exact ⟨_, hsends, hstring.mpr ⟨hnul, hbefore, hbehind⟩⟩

/-- A digit always has a cell in `serial_data`. -/
theorem CommandInvariant.digitIndex_lt (h : CommandInvariant texts s) {index : ℕ}
    (hindex : index ∈ digitIndex s) : index < serialDataSize := by
  unfold digitIndex at hindex
  split at hindex
  · obtain ⟨-, heq⟩ := Option.ite_none_right_eq_some.mp hindex
    exact Option.some.inj heq ▸ h.serialPos_lt
  · exact absurd hindex (Option.not_mem_none index)

/-- No `B` command of a run is shorter than an earlier one, none holds a NUL, and a NUL stands
behind `binary_data` whenever a command fills it. -/
def Growing (trace : List (Transition CommandState Pass)) : Prop :=
  (commands trace).Pairwise (fun later earlier ↦ earlier.length ≤ later.length) ∧
    ∀ t ∈ trace, ∀ text ∈ binaryText t.before,
      nul ∉ text ∧ (text.length = binaryDataSize → t.label.behind 0 = nul)

theorem Growing.nul_notMem (h : Growing trace) (hmem : text ∈ commands trace) : nul ∉ text := by
  obtain ⟨t, ht, htext⟩ := List.mem_filterMap.mp hmem
  exact (h.2 t ht text htext).1

theorem growing_cons_iff (t : Transition CommandState Pass) :
    Growing (t :: trace) ↔ (∀ text ∈ binaryText t.before, (∀ earlier ∈ commands trace,
      earlier.length ≤ text.length) ∧ nul ∉ text ∧
        (text.length = binaryDataSize → t.label.behind 0 = nul)) ∧ Growing trace := by
  unfold Growing
  rw [List.forall_mem_cons]
  cases htext : binaryText t.before with
  | none =>
    rw [commands_cons_of_none htext]
    simp
  | some text =>
    rw [commands_cons_of_some htext, List.pairwise_cons]
    simp only [Option.mem_some_iff, forall_eq']
    tauto

/-- A run sends every `B` command as it was received exactly when no command of it is shorter than
an earlier one, none holds a NUL, and a NUL stands behind `binary_data` whenever a command fills it.
The digits are always inside `serial_data`. -/
theorem uncontaminated_iff (hrun : Run remote trace s) : Uncontaminated trace ↔ Growing trace := by
  induction hrun with
  | start h => simp [Uncontaminated, Growing, commands]
  | @step trace s next pass hrun hstep ih =>
    have hinvariant := run_commandInvariant hrun
    rw [Uncontaminated, List.forall_mem_cons, ← Uncontaminated, ih, growing_cons_iff]
    refine and_congr_left fun hgrowing ↦ ?_
    rw [sendsExactly_iff hinvariant fun text hmem ↦ hgrowing.nul_notMem hmem]
    exact and_iff_left fun index hindex ↦ hinvariant.digitIndex_lt hindex

/-! ### Two commands -/

/-- The state behind `setup` with a text on the serial line. -/
def receiving (text : String) : CommandState := afterSetup (text.toList.map some)

theorem initial_receiving (text : String) : remote.initial (receiving text) := ⟨_, rfl⟩

/-- Two calls of `loop`, with a memory behind `binary_data` that holds no NUL. -/
def twoPasses : List Pass := [⟨none, fun _ ↦ 'x'⟩, ⟨none, fun _ ↦ 'x'⟩]

theorem growingCommands_uncontaminated :
    ∃ s, Run remote (transitions remote (receiving "B01\nB110\n") twoPasses) s ∧ s.serial = [] ∧
      Uncontaminated (transitions remote (receiving "B01\nB110\n") twoPasses) := by
  have hreplay : (replay remote (receiving "B01\nB110\n") twoPasses).map (fun s ↦ s.serial) =
      some [] := by decide
  obtain ⟨s, hrun, hserial⟩ := exists_run_of_replay (initial_receiving _) hreplay
  exact ⟨s, hrun, hserial, (uncontaminated_iff hrun).mpr ⟨by decide, by decide⟩⟩

/-- The second command is sent with the last digit of the first one behind it. -/
theorem not_forall_uncontaminated :
    ¬ ∀ (trace : List (Transition CommandState Pass)) (s : CommandState),
      Run remote trace s → Uncontaminated trace := by
  intro huncontaminated
  have hreplay : (replay remote (receiving "B110\nB01\n") twoPasses).map (fun s ↦ s.serial) =
      some [] := by decide
  obtain ⟨s, hrun, -⟩ := exists_run_of_replay (initial_receiving _) hreplay
  obtain ⟨hexact, -⟩ := huncontaminated _ s hrun _ List.mem_cons_self
  obtain ⟨pointer, hsends, hstring⟩ := hexact ['0', '1'] (by decide)
  have hdigits := congrArg (List.map fun pointer ↦ pointer 2) hsends
  have hend : pointer 2 = nul := hstring.terminated
  rw [List.map_singleton, hend] at hdigits
  exact absurd hdigits (by decide)

end Sketchbook.Transmitter.SerialCommands
