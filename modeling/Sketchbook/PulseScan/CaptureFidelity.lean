import Sketchbook.PulseScan.PulseCapture

/-!
# What the stored pulse lengths of sketch_feb03a stand for

A stored value should be the number of samples of a complete LOW run of the pin, and the values
should stand in the order of these runs (`Faithful`). `storesLength_iff` says for each value stored
in any run over any samples when it is right: when the LOW samples were counted from their first on
(`CountedWhole`) and are fewer than 2 ^ 16.

The count misses the beginning of a LOW run in two places. A pass that accepts a frame ends at the
first sample of a LOW run and sets `pinstate` to 1, so the next pass skips the loop that would wait
for the run to end; and so does the first pass, whatever the pin does then. From 2 ^ 16 samples on
`counter` wraps, and a long LOW run can count as the length of a bit.
-/

set_option autoImplicit false
set_option relaxedAutoImplicit false

namespace Sketchbook.PulseScan.CaptureFidelity

open FrameScan LoopPass Foundation.LevelRun PulseCapture

/-- The samples at which the pin is LOW. -/
def low (reads : ℕ → PinRead) (n : ℕ) : Bool := !(reads n).high

/-- The sample ends a pass whose scan accepts a frame. -/
structure AcceptsAt (reads : ℕ → PinRead) (n : ℕ) : Prop where
  phase : (stateAt reads n).phase = .awaitLow
  low : low reads n = true
  full : ¬ (stateAt reads n).i < bufferSize
  captured : (scan (captured (stateAt reads n)) (stateAt reads n).globals).capturedState = true

/-- The sample ends a LOW run whose count is stored. -/
structure Stores (reads : ℕ → PinRead) (n : ℕ) : Prop where
  phase : (stateAt reads n).phase = .countLow
  high : low reads n = false
  gate : gate (stateAt reads n).counter

/-- The LOW run before a sample started behind a HIGH sample and not at the end of an accepting
pass, and it is shorter than 2 ^ 16 samples. -/
structure CountedWhole (reads : ℕ → PinRead) (n : ℕ) : Prop where
  bounded : runBefore (low reads) n < n
  counted : ¬ AcceptsAt reads (n - runBefore (low reads) n)
  short : runBefore (low reads) n < 2 ^ 16

/-- The value a sample stores is the length of the complete LOW run it ends. -/
def StoresLength (reads : ℕ → PinRead) (n : ℕ) : Prop :=
  ∃ length : ℕ, (stateAt reads n).counter.toInt = length ∧
    ∃ first, first + length = n ∧ CompleteRun (low reads) first length

/-- The values stored so far in a pass belong to LOW runs, given by their first samples and their
lengths. -/
structure StoredRuns (reads : ℕ → PinRead) (n : ℕ) (first length : ℕ → ℕ) : Prop where
  stored : ∀ k : Fin bufferSize, (k : ℕ) < (stateAt reads n).i →
    captured (stateAt reads n) k = length k ∧ CompleteRun (low reads) (first k) (length k)
  ended : ∀ k < (stateAt reads n).i, first k + length k < n
  ordered : ∀ j k, j < k → k < (stateAt reads n).i → first j + length j < first k

/-- The stored values are the lengths of complete LOW runs, in the order of these runs. -/
def Faithful (reads : ℕ → PinRead) (n : ℕ) : Prop :=
  ∃ first length, StoredRuns reads n first length

variable {reads : ℕ → PinRead} {n : ℕ}

/-! ### The counter along a run -/

open Classical in
/-- How many samples of the LOW run before a point have been counted: all, but for the first sample
of a run that ended an accepting pass. -/
noncomputable def countedLow (reads : ℕ → PinRead) (n : ℕ) : ℕ :=
  if AcceptsAt reads (n - runBefore (low reads) n) then runBefore (low reads) n - 1
  else runBefore (low reads) n

/-- What the loops know at a sample, by the loop that polls. -/
def CounterAt (reads : ℕ → PinRead) (n : ℕ) (s : CaptureState) : Prop :=
  match s.phase with
  | .awaitHigh => s.counter = 0 ∧ s.i = 0
  | .countLow =>
    s.i < bufferSize ∧ 0 < runBefore (low reads) n ∧
      s.counter = BitVec.ofNat 16 (countedLow reads n)
  | .awaitLow =>
    s.i ≤ bufferSize ∧ s.counter = 0 ∧
      (runBefore (low reads) n = 0 ∨
        runBefore (low reads) n = 1 ∧ AcceptsAt reads (n - 1) ∧ s.i = 0)

theorem endLow_i_le {s : CaptureState} (h : s.i < bufferSize) : (endLow s).i ≤ bufferSize := by
  unfold endLow
  split_ifs
  · exact h
  · exact h.le

/-- A HIGH sample leaves no LOW run to count. -/
theorem counterAt_endLow {s : CaptureState} (hroom : s.i < bufferSize)
    (hhigh : low reads n = false) : CounterAt reads (n + 1) (endLow s) := by
  unfold CounterAt
  rw [endLow_phase]
  exact ⟨endLow_i_le hroom, endLow_counter s, Or.inl (runBefore_succ_of_not_level hhigh)⟩

theorem counterAt_firstRead : CounterAt reads 0 firstRead := by
  rw [firstRead, beginPass_eq]
  exact ⟨Nat.zero_le _, rfl, Or.inl rfl⟩

/-- The sample that starts a LOW run is counted as its first, or as its second when an accepting
pass has ended between. -/
theorem countedLow_first (hroom : (stateAt reads n).i < bufferSize) (hlow : low reads n = true)
    (hbefore : runBefore (low reads) n = 0 ∨
      runBefore (low reads) n = 1 ∧ AcceptsAt reads (n - 1) ∧ (stateAt reads n).i = 0) :
    countedLow reads (n + 1) = 1 := by
  have hsucc := runBefore_succ_of_level hlow
  have hle := runBefore_le (low reads) n
  unfold countedLow
  rcases hbefore with hzero | ⟨hone, haccepts, -⟩
  · have hnot : ¬ AcceptsAt reads (n + 1 - runBefore (low reads) (n + 1)) := by
      rw [hsucc, hzero]
      exact fun haccepts ↦ haccepts.full hroom
    rw [if_neg hnot, hsucc, hzero]
  · have hyes : AcceptsAt reads (n + 1 - runBefore (low reads) (n + 1)) := by
      rw [hsucc, hone]
      exact haccepts
    rw [if_pos hyes, hsucc, hone]

/-- A further LOW sample adds one. -/
theorem countedLow_succ (hlow : low reads n = true) (hpos : 0 < runBefore (low reads) n) :
    countedLow reads (n + 1) = countedLow reads n + 1 := by
  have hsucc := runBefore_succ_of_level hlow
  have hstart : n + 1 - runBefore (low reads) (n + 1) = n - runBefore (low reads) n := by omega
  unfold countedLow
  rw [hstart, hsucc]
  split_ifs <;> omega

/-- A HIGH sample ends the count, if there is one. -/
theorem counterAt_of_high (h : CounterAt reads n (stateAt reads n)) (hlow : low reads n = false) :
    CounterAt reads (n + 1) (stateAt reads (n + 1)) := by
  have hhigh : (reads n).high = true := by simpa [low] using hlow
  rw [stateAt]
  unfold CounterAt at h
  cases hphase : (stateAt reads n).phase with
  | awaitHigh =>
    rw [hphase] at h
    rw [step_awaitHigh_high hphase hhigh]
    exact counterAt_endLow (by rw [h.2]; decide) hlow
  | countLow =>
    rw [hphase] at h
    rw [step_countLow_high hphase hhigh]
    exact counterAt_endLow h.1 hlow
  | awaitLow =>
    rw [hphase] at h
    rw [step_awaitLow_high hphase hhigh]
    unfold CounterAt
    rw [hphase]
    exact ⟨h.1, h.2.1, Or.inl (runBefore_succ_of_not_level hlow)⟩

/-- The next pass begins with nothing counted; behind an accepting pass the LOW sample that ended it
is left out. -/
theorem counterAt_endPass (hphase : (stateAt reads n).phase = .awaitLow) (hlow : low reads n = true)
    (hfull : ¬ (stateAt reads n).i < bufferSize)
    (hbefore : runBefore (low reads) n = 0 ∨
      runBefore (low reads) n = 1 ∧ AcceptsAt reads (n - 1) ∧ (stateAt reads n).i = 0) :
    CounterAt reads (n + 1) (stateAt reads (n + 1)) := by
  have hhigh : (reads n).high = false := by simpa [low] using hlow
  rw [stateAt, step_awaitLow_end hphase hhigh hfull, endPass, beginPass_eq]
  cases haccepted : (scan (captured (stateAt reads n)) (stateAt reads n).globals).capturedState with
  | false => exact ⟨rfl, rfl⟩
  | true =>
    have hsucc := runBefore_succ_of_level hlow
    have hzero : runBefore (low reads) n = 0 := by
      rcases hbefore with hzero | ⟨-, -, hempty⟩
      · exact hzero
      · rw [hempty] at hfull
        exact absurd (by decide) hfull
    refine ⟨Nat.zero_le _, rfl, Or.inr ⟨by omega, ?_, rfl⟩⟩
    exact ⟨hphase, hlow, hfull, haccepted⟩

/-- A LOW sample is counted where the loops count, and starts a count behind a HIGH one. -/
theorem counterAt_of_low (h : CounterAt reads n (stateAt reads n)) (hlow : low reads n = true) :
    CounterAt reads (n + 1) (stateAt reads (n + 1)) := by
  have hhigh : (reads n).high = false := by simpa [low] using hlow
  have hsucc := runBefore_succ_of_level hlow
  unfold CounterAt at h
  cases hphase : (stateAt reads n).phase with
  | awaitHigh =>
    rw [hphase] at h
    rw [stateAt, step_awaitHigh_low hphase hhigh]
    unfold CounterAt
    rw [hphase]
    exact h
  | countLow =>
    rw [hphase] at h
    obtain ⟨hroom, hpos, hcounter⟩ := h
    rw [stateAt, step_countLow_low hphase hhigh]
    unfold CounterAt
    rw [hphase]
    refine ⟨hroom, by omega, ?_⟩
    change (stateAt reads n).counter + 1 = _
    rw [hcounter, countedLow_succ hlow hpos, BitVec.ofNat_add]
    rfl
  | awaitLow =>
    rw [hphase] at h
    obtain ⟨hle, hcounter, hbefore⟩ := h
    by_cases hroom : (stateAt reads n).i < bufferSize
    · rw [stateAt, step_awaitLow_low hphase hhigh hroom]
      refine ⟨hroom, by omega, ?_⟩
      change (stateAt reads n).counter + 1 = _
      rw [hcounter, countedLow_first hroom hlow hbefore]
      rfl
    · exact counterAt_endPass hphase hlow hroom hbefore

theorem counterAt (reads : ℕ → PinRead) (n : ℕ) : CounterAt reads n (stateAt reads n) := by
  induction n with
  | zero => exact counterAt_firstRead
  | succ n ih =>
    cases hlow : low reads n with
    | false => exact counterAt_of_high ih hlow
    | true => exact counterAt_of_low ih hlow

/-! ### The stored values -/

/-- A count inside the gate is a positive `int`. -/
theorem toInt_of_gate {counter : BitVec 16} (h : gate counter) :
    counter.toInt = counter.toNat ∧ 0 < counter.toNat := by
  have hpositive : 0 < counter.toInt := lt_of_le_of_lt (by decide) h.1
  rw [BitVec.toInt_eq_toNat_cond] at hpositive ⊢
  split_ifs at hpositive ⊢ with hcond
  · exact ⟨rfl, by omega⟩
  · have hlt := counter.isLt
    omega

/-- A stored value is the length of the run it ends exactly when the whole run was counted. -/
theorem storesLength_iff (h : Stores reads n) : StoresLength reads n ↔ CountedWhole reads n := by
  obtain ⟨hint, hpos⟩ := toInt_of_gate h.gate
  have hknown := counterAt reads n
  unfold CounterAt at hknown
  rw [h.phase] at hknown
  obtain ⟨-, hrun, hcounter⟩ := hknown
  have hcount : (stateAt reads n).counter.toNat = countedLow reads n % 2 ^ 16 := by
    rw [hcounter, BitVec.toNat_ofNat]
  have hlength : StoresLength reads n ↔
      runBefore (low reads) n = (stateAt reads n).counter.toNat ∧
        (stateAt reads n).counter.toNat < n := by
    rw [← completeRun_iff h.high hpos, StoresLength, hint]
    constructor
    · rintro ⟨length, heq, hrun⟩
      rwa [Nat.cast_injective heq]
    · exact fun hrun ↦ ⟨_, rfl, hrun⟩
  rw [hlength, hcount]
  unfold countedLow
  constructor
  · rintro ⟨heq, hlt⟩
    split_ifs at heq with haccepts
    · have hmod := Nat.mod_le (runBefore (low reads) n - 1) (2 ^ 16)
      omega
    · rw [if_neg haccepts] at hlt
      exact ⟨by omega, haccepts, by omega⟩
  · rintro ⟨hbounded, hcounted, hshort⟩
    rw [if_neg hcounted, Nat.mod_eq_of_lt hshort]
    exact ⟨rfl, hbounded⟩

/-- A LOW sample stores nothing, and begins a new pass at most. -/
theorem step_of_low (hlow : (reads n).high = false) :
    ((stateAt reads (n + 1)).i = (stateAt reads n).i ∧
        (stateAt reads (n + 1)).timings = (stateAt reads n).timings) ∨
      (stateAt reads (n + 1)).i = 0 := by
  rw [stateAt]
  cases hphase : (stateAt reads n).phase with
  | awaitHigh =>
    rw [step_awaitHigh_low hphase hlow]
    exact Or.inl ⟨rfl, rfl⟩
  | countLow =>
    rw [step_countLow_low hphase hlow]
    exact Or.inl ⟨rfl, rfl⟩
  | awaitLow =>
    by_cases hroom : (stateAt reads n).i < bufferSize
    · rw [step_awaitLow_low hphase hlow hroom]
      exact Or.inl ⟨rfl, rfl⟩
    · rw [step_awaitLow_end hphase hlow hroom, endPass, beginPass_eq]
      exact Or.inr rfl

/-- A HIGH sample stores nothing unless it ends a count that passes the gate. -/
theorem step_of_high (h : ¬ Stores reads n) (hhigh : (reads n).high = true) :
    (stateAt reads (n + 1)).i = (stateAt reads n).i ∧
      (stateAt reads (n + 1)).timings = (stateAt reads n).timings := by
  have hknown := counterAt reads n
  unfold CounterAt at hknown
  rw [stateAt]
  cases hphase : (stateAt reads n).phase with
  | awaitHigh =>
    rw [hphase] at hknown
    have hnot : ¬ gate (stateAt reads n).counter := by
      rw [hknown.1]
      exact not_gate_zero
    rw [step_awaitHigh_high hphase hhigh, endLow_of_not_gate hnot]
    exact ⟨rfl, rfl⟩
  | countLow =>
    have hnot : ¬ gate (stateAt reads n).counter := by
      intro hgate
      exact h ⟨hphase, by rw [low, hhigh]; rfl, hgate⟩
    rw [step_countLow_high hphase hhigh, endLow_of_not_gate hnot]
    exact ⟨rfl, rfl⟩
  | awaitLow =>
    rw [step_awaitLow_high hphase hhigh]
    exact ⟨rfl, rfl⟩

/-- A sample that stores nothing leaves the stored values, or begins a pass. -/
theorem step_of_not_stores (h : ¬ Stores reads n) :
    ((stateAt reads (n + 1)).i = (stateAt reads n).i ∧
        (stateAt reads (n + 1)).timings = (stateAt reads n).timings) ∨
      (stateAt reads (n + 1)).i = 0 := by
  cases hhigh : (reads n).high with
  | false => exact step_of_low hhigh
  | true => exact Or.inl (step_of_high h hhigh)

/-! ### Fidelity of a run -/

/-- A run that ends later than another one starts behind its end. -/
theorem lt_of_completeRun {level : ℕ → Bool} {first length earlier : ℕ}
    (h : CompleteRun level first length) (hbehind : level earlier = false)
    (hlt : earlier < first + length) : earlier < first := by
  by_contra hle
  have hinside := h.inside (earlier - first) (by omega)
  rw [Nat.add_sub_cancel' (by omega), hbehind] at hinside
  exact Bool.false_ne_true hinside

/-- A sample that stores a value appends it. -/
theorem Stores.next (h : Stores reads n) :
    ∃ hroom : (stateAt reads n).i < bufferSize,
      (stateAt reads (n + 1)).i = (stateAt reads n).i + 1 ∧
        (stateAt reads (n + 1)).timings = Function.update (stateAt reads n).timings
          ⟨(stateAt reads n).i, hroom⟩ (stateAt reads n).counter := by
  have hknown := counterAt reads n
  unfold CounterAt at hknown
  rw [h.phase] at hknown
  have hhigh : (reads n).high = true := by simpa [low] using h.high
  rw [stateAt, step_countLow_high h.phase hhigh, endLow_of_gate h.gate hknown.1]
  exact ⟨hknown.1, rfl, rfl⟩

/-- A sample that stores the length of the run it ends adds that run. -/
theorem StoredRuns.store {first length : ℕ → ℕ} (h : StoredRuns reads n first length)
    (hstores : Stores reads n) (hlength : StoresLength reads n) : Faithful reads (n + 1) := by
  obtain ⟨newLength, hvalue, newFirst, hend, hrun⟩ := hlength
  obtain ⟨hroom, hi, htimings⟩ := hstores.next
  refine ⟨Function.update first (stateAt reads n).i newFirst,
    Function.update length (stateAt reads n).i newLength, ?_, ?_, ?_⟩
  · intro k hk
    rw [hi] at hk
    rw [captured, htimings]
    by_cases heq : (k : ℕ) = (stateAt reads n).i
    · obtain rfl : k = ⟨(stateAt reads n).i, hroom⟩ := Fin.ext heq
      simp only [Function.update_self]
      exact ⟨hvalue, hrun⟩
    · have hne : k ≠ ⟨(stateAt reads n).i, hroom⟩ := fun h ↦ heq (congrArg Fin.val h)
      rw [Function.update_of_ne heq, Function.update_of_ne heq, Function.update_of_ne hne]
      exact h.stored k (by omega)
  · intro k hk
    rw [hi] at hk
    by_cases heq : k = (stateAt reads n).i
    · rw [heq, Function.update_self, Function.update_self]
      omega
    · rw [Function.update_of_ne heq, Function.update_of_ne heq]
      have hold := h.ended k (by omega)
      omega
  · intro j k hjk hk
    rw [hi] at hk
    have hj : j ≠ (stateAt reads n).i := by omega
    rw [Function.update_of_ne hj, Function.update_of_ne hj]
    by_cases heq : k = (stateAt reads n).i
    · rw [heq, Function.update_self]
      have hbefore : j < (stateAt reads n).i := by omega
      obtain ⟨-, hother⟩ := h.stored ⟨j, by omega⟩ hbefore
      have hended := h.ended j hbefore
      exact lt_of_completeRun hrun hother.behind (by omega)
    · rw [Function.update_of_ne heq]
      exact h.ordered j k hjk (by omega)

/-- Any other sample keeps the runs, or begins a pass without values. -/
theorem StoredRuns.keep {first length : ℕ → ℕ} (h : StoredRuns reads n first length)
    (hstores : ¬ Stores reads n) : Faithful reads (n + 1) := by
  refine ⟨first, length, ?_⟩
  rcases step_of_not_stores hstores with ⟨hi, htimings⟩ | hi
  · refine ⟨fun k hk ↦ ?_, fun k hk ↦ ?_, fun j k hjk hk ↦ ?_⟩
    · rw [captured, htimings]
      exact h.stored k (hi ▸ hk)
    · exact Nat.lt_succ_of_lt (h.ended k (hi ▸ hk))
    · exact h.ordered j k hjk (hi ▸ hk)
  · refine ⟨fun k hk ↦ ?_, fun k hk ↦ ?_, fun j k _ hk ↦ ?_⟩ <;>
    · rw [hi] at hk
      exact absurd hk (Nat.not_lt_zero _)

/-- Each stored value is the length of the LOW run it ends exactly when that run was counted whole,
and as long as all were the stored values are faithful, whatever the samples. -/
theorem captured_faithful (reads : ℕ → PinRead) :
    (∀ n, Stores reads n → (StoresLength reads n ↔ CountedWhole reads n)) ∧
      ∀ last, (∀ n < last, Stores reads n → CountedWhole reads n) → Faithful reads last := by
  refine ⟨fun n ↦ storesLength_iff, fun last ↦ ?_⟩
  induction last with
  | zero =>
    intro _
    have hempty : (stateAt reads 0).i = 0 := by rw [stateAt, firstRead, beginPass_eq]
    refine ⟨id, id, fun k hk ↦ ?_, fun k hk ↦ ?_, fun j k _ hk ↦ ?_⟩ <;>
    · rw [hempty] at hk
      exact absurd hk (Nat.not_lt_zero _)
  | succ last ih =>
    intro hwhole
    obtain ⟨first, length, hruns⟩ := ih fun n hn ↦ hwhole n (Nat.lt_succ_of_lt hn)
    by_cases hstores : Stores reads last
    · exact hruns.store hstores
        ((storesLength_iff hstores).mpr (hwhole last (Nat.lt_succ_self last) hstores))
    · exact hruns.keep hstores

/-- A faithful state behind a stored value has a run of that length. -/
theorem Faithful.exists_run (h : Faithful reads (n + 1)) (hstores : Stores reads n) :
    ∃ first length : ℕ, (stateAt reads n).counter.toInt = length ∧
      CompleteRun (low reads) first length ∧ first + length ≤ n := by
  obtain ⟨first, length, hstored, hended, -⟩ := h
  obtain ⟨hroom, hi, htimings⟩ := hstores.next
  have hlast : (stateAt reads n).i < (stateAt reads (n + 1)).i := by
    rw [hi]
    exact Nat.lt_succ_self _
  obtain ⟨hvalue, hrun⟩ := hstored ⟨(stateAt reads n).i, hroom⟩ hlast
  rw [captured, htimings, Function.update_self] at hvalue
  exact ⟨_, _, hvalue, hrun, Nat.le_of_lt_succ (hended _ hlast)⟩

/-! ### One LOW run -/

/-- One LOW run between HIGH samples. -/
def lowRun (length n : ℕ) : PinRead := ⟨n = 0 ∨ length < n, ⟨false, 0, fun _ ↦ 0⟩⟩

variable {length : ℕ}

theorem low_lowRun_eq_false_iff (length n : ℕ) :
    low (lowRun length) n = false ↔ n = 0 ∨ length < n := by
  rw [low, lowRun, Bool.not_eq_false', decide_eq_true_eq]

theorem completeRun_lowRun (hpos : 0 < length) : CompleteRun (low (lowRun length)) 1 length where
  pos := hpos
  start := Nat.one_pos
  before := (low_lowRun_eq_false_iff _ _).mpr (Or.inl rfl)
  inside k hk := by
    rw [← Bool.not_eq_false, low_lowRun_eq_false_iff]
    omega
  behind := (low_lowRun_eq_false_iff _ _).mpr (Or.inr (by omega))

theorem stateAt_lowRun_one (length : ℕ) : stateAt (lowRun length) 1 = firstRead := by
  rw [stateAt, stateAt, step_awaitLow_high]
  · rw [firstRead, beginPass_eq, if_pos rfl]
  · rfl

/-- The run is counted modulo 2 ^ 16. -/
theorem stateAt_lowRun (hpos : 0 < length) :
    stateAt (lowRun length) (1 + length) =
      { firstRead with phase := .countLow, counter := BitVec.ofNat 16 length } := by
  have hlow (k : ℕ) (hk : k < length) :
      lowRun length (1 + k) = ⟨false, ⟨false, 0, fun _ ↦ 0⟩⟩ := by
    have hfalse : ¬ (1 + k = 0 ∨ length < 1 + k) := by omega
    rw [lowRun, decide_eq_false hfalse]
  rw [stateAt_add hlow, stateAt_lowRun_one, firstRead, beginPass_eq, if_pos rfl]
  exact foldl_step_lowRun rfl rfl (by decide) rfl hpos

theorem stores_lowRun (hpos : 0 < length) (hgate : gate (BitVec.ofNat 16 length)) :
    Stores (lowRun length) (1 + length) := by
  have hhigh := (completeRun_lowRun hpos).behind
  refine ⟨?_, hhigh, ?_⟩ <;> rw [stateAt_lowRun hpos]
  exact hgate

/-- The run is counted whole exactly when it is shorter than 2 ^ 16. -/
theorem countedWhole_lowRun_iff (hpos : 0 < length) :
    CountedWhole (lowRun length) (1 + length) ↔ length < 2 ^ 16 := by
  have hrun := (completeRun_lowRun hpos).runBefore_eq le_rfl
  have hroom : ¬ AcceptsAt (lowRun length) 1 := by
    intro haccepts
    refine haccepts.full ?_
    rw [stateAt_lowRun_one, firstRead, beginPass_eq]
    decide
  constructor
  · intro hwhole
    rw [← hrun]
    exact hwhole.short
  · intro hshort
    refine ⟨?_, ?_, ?_⟩ <;> rw [hrun]
    · omega
    · rwa [Nat.add_sub_cancel]
    · exact hshort

/-- A run of 400 samples is stored with its length, and one of 2 ^ 16 + 400 samples is not. -/
theorem captured_faithful_lowRuns :
    StoresLength (lowRun 400) 401 ∧ Faithful (lowRun 400) 402 ∧
      ¬ StoresLength (lowRun (2 ^ 16 + 400)) (1 + (2 ^ 16 + 400)) := by
  have hpos : 0 < 400 := by decide
  have hlongPos : 0 < 2 ^ 16 + 400 := by decide
  have hshort := stores_lowRun hpos (by decide)
  have hlong := stores_lowRun hlongPos (by decide)
  have hwhole := (countedWhole_lowRun_iff hpos).mpr (by decide)
  obtain ⟨hlength, hfaithful⟩ := captured_faithful (lowRun 400)
  refine ⟨(hlength _ hshort).mpr hwhole, hfaithful 402 fun n hn hstores ↦ ?_, fun hstored ↦ ?_⟩
  · rcases (low_lowRun_eq_false_iff 400 n).mp hstores.high with rfl | hbehind
    · have hphase := hstores.phase
      rw [stateAt, firstRead, beginPass_eq] at hphase
      exact Phase.noConfusion hphase
    · obtain rfl : n = 1 + 400 := by omega
      exact hwhole
  · have hlost := ((captured_faithful _).1 _ hlong).mp hstored
    rw [countedWhole_lowRun_iff (by decide)] at hlost
    exact absurd hlost (by decide)

theorem not_forall_faithful : ¬ ∀ reads last, Faithful reads last := by
  intro hall
  have hpos : 0 < 2 ^ 16 + 400 := by decide
  have hstores := stores_lowRun hpos (by decide)
  obtain ⟨first, length, hvalue, hrun, hend⟩ := (hall _ (1 + (2 ^ 16 + 400) + 1)).exists_run hstores
  have hcount : (length : ℤ) = 400 := by
    rw [← hvalue, stateAt_lowRun hpos]
    decide
  have hbehind := (low_lowRun_eq_false_iff _ _).mp hrun.behind
  have hbefore := (low_lowRun_eq_false_iff _ _).mp hrun.before
  have hstart := hrun.start
  omega

end Sketchbook.PulseScan.CaptureFidelity
