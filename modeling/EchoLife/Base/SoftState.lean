import EchoLife.Base.Run

/-!
Soft state: what was announced holds for a lifetime after its last announcement,
unless it is withdrawn before. Lapsed announcements are collected by ticks. The
times of an implementation are the low words of the clock, which wraps around.
-/

namespace EchoLife.SoftState

open Function List Option Run

variable {window now deadline : Nat}

/-- What a 32-bit counter shows of the clock. -/
def word (now : Nat) : Nat :=
  now % 2 ^ 32

/-- The test of a stored time against a counter: it lies behind, but by less than
the window. -/
def overdue (window counter time : Nat) : Bool :=
  time < counter && counter - time < window

/-- A deadline that passed a short time ago, with the counter not having wrapped since. -/
structure Timely (window now deadline : Nat) : Prop where
  recent : now - deadline < window
  unwrapped : now / 2 ^ 32 = deadline / 2 ^ 32

theorem overdue_of_timely (hpast : deadline < now) (htimely : Timely window now deadline) :
    overdue window (word now) (word deadline) = true := by
  obtain ⟨hrecent, hepoch⟩ := htimely
  simp only [overdue, Bool.and_eq_true, decide_eq_true_eq]
  unfold word
  omega

/-- A deadline ahead by no more than the window is never collected, also when the counter wraps
before it. -/
theorem not_overdue_of_ahead (hahead : now ≤ deadline) (hnear : deadline ≤ now + window)
    (hwindow : window ≤ 2 ^ 31) : overdue window (word now) (word deadline) = false := by
  simp only [overdue, Bool.and_eq_false_iff, decide_eq_false_iff_not]
  unfold word
  omega

/-- The test is right about a deadline in the last round of the counter exactly if it is timely.
-/
theorem overdue_iff_timely (hpast : deadline < now) (hlate : now < deadline + 2 ^ 32) :
    overdue window (word now) (word deadline) = true ↔ Timely window now deadline := by
  refine ⟨?_, overdue_of_timely hpast⟩
  simp only [overdue, Bool.and_eq_true, decide_eq_true_eq]
  unfold word
  intro h
  constructor <;> omega

/-- A tick over a list: what is overdue goes. -/
def sweep {α : Type*} (window : Nat) (time : α → Nat) (now : Nat) (entries : List α) : List α :=
  entries.filter fun e => !overdue window (word now) (time e)

section
variable {α : Type*} {time : α → Nat} {e : α}

theorem mem_run_sweep (ticks : List Nat) (entries : List α) :
    e ∈ run (sweep window time) ticks entries ↔
      e ∈ entries ∧ ∀ now ∈ ticks, overdue window (word now) (time e) = false := by
  induction ticks generalizing entries with
  | nil => simp [run]
  | cons now rest ih => simp [run_cons, ih, sweep, and_assoc]

/-- What was set at `start` is there until its deadline; the first tick after that takes it
exactly if it is timely. -/
theorem sweep_exact {entries : List α} {start now : Nat} {ticks : List Nat} (he : e ∈ entries)
    (htime : time e = word (start + window)) (hwindow : window ≤ 2 ^ 31)
    (hticks : ∀ tick ∈ ticks, start ≤ tick ∧ tick ≤ start + window)
    (hpast : start + window < now) (hlate : now < start + window + 2 ^ 32) :
    e ∈ run (sweep window time) ticks entries ∧
      (e ∉ run (sweep window time) (ticks ++ [now]) entries ↔
        Timely window now (start + window)) := by
  have hkept : ∀ tick ∈ ticks, overdue window (word tick) (time e) = false := by
    intro tick htick
    obtain ⟨hfrom, hupto⟩ := hticks tick htick
    rw [htime]
    exact not_overdue_of_ahead hupto (by omega) hwindow
  refine ⟨(mem_run_sweep ticks entries).mpr ⟨he, hkept⟩, ?_⟩
  rw [mem_run_sweep, ← overdue_iff_timely hpast hlate, ← htime, forall_mem_append,
    forall_mem_singleton, and_iff_right he, and_iff_right hkept, Bool.not_eq_false]

end

inductive Event (K : Type*) where
  | join (k : K)
  | leave (k : K)
  | tick
  | wait (elapsed : Nat)
  deriving DecidableEq

/-- The clock and, for what is announced, the time at which it lapses. -/
structure State (K : Type*) where
  now : Nat
  deadline : K → Option Nat

theorem snoc_eq_split {A : Type*} {history before later : List A} {event x : A} :
    history ++ [event] = before ++ x :: later ↔
      (later = [] ∧ before = history ∧ x = event) ∨
        ∃ fewer, later = fewer ++ [event] ∧ history = before ++ x :: fewer := by
  rcases eq_nil_or_concat' later with rfl | ⟨fewer, last, rfl⟩
  · constructor
    · intro h
      have hparts := append_inj' h rfl
      exact .inl ⟨rfl, hparts.1.symm, (singleton_inj.mp hparts.2).symm⟩
    · rintro (⟨_, rfl, rfl⟩ | ⟨fewer, hnil, _⟩)
      · rfl
      · simp at hnil
  · constructor
    · intro h
      rw [← cons_append, ← append_assoc] at h
      obtain ⟨hfront, hlast⟩ := append_inj' h rfl
      refine .inr ⟨fewer, ?_, hfront⟩
      rw [← singleton_inj.mp hlast]
    · rintro (⟨hnil, _⟩ | ⟨same, hsame, rfl⟩)
      · simp at hnil
      obtain ⟨rfl, hlast⟩ := append_inj' hsame rfl
      rw [singleton_inj.mp hlast]
      simp

section
variable {K : Type*} [DecidableEq K] (lifetime : Nat)

def Event.step : Event K → State K → State K
  | .join k, s =>
    { s with deadline := update s.deadline k (some (s.now + lifetime)) }
  | .leave k, s => { s with deadline := update s.deadline k none }
  | .tick, s => { s with deadline := fun k => (s.deadline k).filter (s.now ≤ ·) }
  | .wait elapsed, s => { s with now := s.now + elapsed }

variable (start : Nat)

def State.empty : State K :=
  ⟨start, fun _ => none⟩

def after (history : List (Event K)) : State K :=
  run (Event.step lifetime) history (.empty start)

/-- The last join of `k` is later than its last leave, lapses at `deadline`, and no tick since
came later than that. -/
def MemberUntil (history : List (Event K)) (k : K) (deadline : Nat) : Prop :=
  ∃ before later, history = before ++ .join k :: later ∧
    .join k ∉ later ∧ .leave k ∉ later ∧
    deadline = (after lifetime start before).now + lifetime ∧
    ∀ mid rest, later = mid ++ .tick :: rest →
      (after lifetime start (before ++ .join k :: mid)).now ≤ deadline

def Member (history : List (Event K)) (k : K) : Prop :=
  ∃ deadline, MemberUntil lifetime start history k deadline

theorem after_snoc (history : List (Event K)) (event : Event K) :
    after lifetime start (history ++ [event]) =
      event.step lifetime (after lifetime start history) := by
  simp only [after, run_append, run_cons, run_nil]

/-- Nothing lapses later than a lifetime from now. -/
def State.Bounded (s : State K) : Prop :=
  ∀ k deadline, s.deadline k = some deadline → deadline ≤ s.now + lifetime

theorem State.Bounded.step {s : State K} (h : s.Bounded lifetime) (event : Event K) :
    (event.step lifetime s).Bounded lifetime := by
  intro k deadline
  cases event with
  | join joined =>
    simp only [Event.step, update_apply]
    split
    · rintro ⟨⟩
      exact le_refl _
    · exact h k deadline
  | leave left =>
    simp only [Event.step, update_apply]
    split
    · rintro ⟨⟩
    · exact h k deadline
  | tick =>
    intro hkept
    exact h k deadline (filter_eq_some_iff.mp hkept).1
  | wait elapsed =>
    intro hkept
    have hle := h k deadline hkept
    simp only [Event.step]
    omega

theorem memberUntil_nil (k : K) (deadline : Nat) : ¬MemberUntil lifetime start [] k deadline := by
  rintro ⟨before, later, hsplit, _⟩
  simp at hsplit

section

variable (start : Nat) (history : List (Event K))
include history

theorem memberUntil_snoc (event : Event K) (k : K) (deadline : Nat) :
    MemberUntil lifetime start (history ++ [event]) k deadline ↔
      (event = .join k ∧ deadline = (after lifetime start history).now + lifetime) ∨
      (event ≠ .join k ∧ event ≠ .leave k ∧
        MemberUntil lifetime start history k deadline ∧
        (event = .tick → (after lifetime start history).now ≤ deadline)) := by
  constructor
  · rintro ⟨before, later, hsplit, hjoin, hleave, hdeadline, hticks⟩
    rcases snoc_eq_split.mp hsplit with ⟨rfl, rfl, rfl⟩ | ⟨fewer, rfl, rfl⟩
    · exact .inl ⟨rfl, hdeadline⟩
    rw [mem_append, mem_singleton, not_or] at hjoin hleave
    refine .inr ⟨Ne.symm hjoin.2, Ne.symm hleave.2,
      ⟨before, fewer, rfl, hjoin.1, hleave.1, hdeadline, ?_⟩, ?_⟩
    · rintro mid rest rfl
      exact hticks mid (rest ++ [event]) (by simp)
    · rintro rfl
      exact hticks fewer [] rfl
  · rintro (⟨rfl, hdeadline⟩ |
      ⟨hjoin, hleave, ⟨before, later, rfl, hnojoin, hnoleave, hdeadline, hticks⟩, hlast⟩)
    · exact ⟨history, [], rfl, by simp, by simp, hdeadline, by simp⟩
    refine ⟨before, later ++ [event], by simp, ?_, ?_, hdeadline, ?_⟩
    · rw [mem_append, mem_singleton, not_or]
      exact ⟨hnojoin, hjoin.symm⟩
    · rw [mem_append, mem_singleton, not_or]
      exact ⟨hnoleave, hleave.symm⟩
    intro mid rest htick
    rcases snoc_eq_split.mp htick with ⟨_, rfl, rfl⟩ | ⟨fewer, _, rfl⟩
    · exact hlast rfl
    · exact hticks mid fewer rfl

/-- The state after a history holds exactly the deadlines of its members. -/
theorem deadline_iff (k : K) (deadline : Nat) :
    (after lifetime start history).deadline k = some deadline ↔
      MemberUntil lifetime start history k deadline := by
  induction history using List.reverseRecOn generalizing deadline with
  | nil =>
    refine iff_of_false ?_ (memberUntil_nil lifetime start k deadline)
    simp [after, State.empty]
  | append_singleton history event ih =>
    rw [memberUntil_snoc, after_snoc, ← ih]
    cases event with
    | join joined =>
      rcases eq_or_ne k joined with rfl | hother
      · simp [Event.step, eq_comm]
      · simp [Event.step, update_of_ne hother, hother.symm]
    | leave left =>
      rcases eq_or_ne k left with rfl | hother
      · simp [Event.step]
      · simp [Event.step, update_of_ne hother, hother.symm]
    | tick => simp [Event.step, filter_eq_some_iff]
    | wait elapsed => simp [Event.step]

theorem member_iff (k : K) :
    Member lifetime start history k ↔ ((after lifetime start history).deadline k).isSome := by
  rw [isSome_iff_exists]
  exact exists_congr (fun deadline => (deadline_iff lifetime start history k deadline).symm)

end

end

end EchoLife.SoftState
