import EchoLife.Base.Run
import Mathlib.Tactic

/-!
Requests interleaved on a shared memory. A request is a tree of accesses and the scheduler may
switch before each of them. Some requests take a busy flag before their first access and clear it
after the last one; one that finds it taken tests it again later, a bounded number of times. The
rules say when the flag makes the requests that take it atomic.
-/

namespace EchoLife.Interleave

open Function List Run

/-- The accesses of a request. `stop` is a request that dies on the way. -/
inductive Prog (Op Ans R : Type*)
  | done (r : R)
  | stop
  | access (op : Op) (next : Ans → Prog Op Ans R)

/-- What became of a request. `refused` gave up waiting for the flag. -/
inductive Thread (Op Ans R : Type*)
  | idle
  | waiting (tries : Nat)
  | running (rest : Prog Op Ans R)
  | returned (r : R)
  | refused

/-- The memory, the flag, the requests, and two histories: the accesses with their requests, and
the requests that took the flag and returned. -/
structure State (M Op Ans R : Type*) where
  mem : M
  flag : Bool
  threads : Nat → Thread Op Ans R
  log : List (Nat × Op)
  completed : List Nat

/-- `locks t` says that request `t` takes the flag, `attempts` how often it may
find it taken. -/
structure Machine (M Op Ans R : Type*) where
  perform : Op → M → M × Ans
  locks : Nat → Bool
  body : Nat → Prog Op Ans R
  attempts : Nat

section Programs

variable {M Op Ans R X : Type*}

/-- A request that runs alone: the memory it leaves and its answer. -/
def Prog.exec (perform : Op → M → M × Ans) : Prog Op Ans R → M → M × Option R
  | .done r, mem => (mem, some r)
  | .stop, mem => (mem, none)
  | .access op next, mem =>
    (next (perform op mem).2).exec perform (perform op mem).1

/-- No access of the request writes, whatever it is answered. -/
def Prog.Quiet (writes : Op → X → Prop) : Prog Op Ans R → Prop
  | .done _ => True
  | .stop => True
  | .access op next => (∀ x, ¬writes op x) ∧ ∀ ans, (next ans).Quiet writes

/-- Started on `mem`, the request does not write. -/
def Prog.QuietOn (perform : Op → M → M × Ans) (writes : Op → X → Prop) (mem : M) :
    Prog Op Ans R → Prop
  | .done _ => True
  | .stop => True
  | .access op next => (∀ x, ¬writes op x) ∧ (next (perform op mem).2).Quiet writes

theorem Prog.Quiet.quietOn {perform : Op → M → M × Ans} {writes : Op → X → Prop} {p : Prog Op Ans R}
    (h : p.Quiet writes) (mem : M) : p.QuietOn perform writes mem := by
  cases p with
  | done r => trivial
  | stop => trivial
  | access op next => exact ⟨h.1, h.2 _⟩

/-- Between a request's read of `x` and its own later write of `x` no other
request writes `x`. -/
def Serialized (reads writes : Op → X → Prop) (log : List (Nat × Op)) : Prop :=
  ∀ (first mid rest : List (Nat × Op)) (t : Nat) (a b : Op) (x : X),
    log = first ++ (t, a) :: (mid ++ (t, b) :: rest) → reads a x → writes b x →
    ∀ e ∈ mid, e.1 ≠ t → ¬writes e.2 x

/-- A write of another request, found between two accesses of one. -/
theorem not_serialized {reads writes : Op → X → Prop} {log : List (Nat × Op)} {i j k t u : Nat}
    {a b c : Op} {x : X} (hij : i < j) (hjk : j < k) (ha : log[i]? = some (t, a))
    (hc : log[j]? = some (u, c)) (hb : log[k]? = some (t, b)) (hut : u ≠ t) (hreads : reads a x)
    (hother : writes c x) (hwrites : writes b x) : ¬Serialized reads writes log := by
  intro h
  obtain ⟨hi, hia⟩ := List.getElem?_eq_some_iff.mp ha
  obtain ⟨hk, hkb⟩ := List.getElem?_eq_some_iff.mp hb
  have hlast : log.drop (i + 1) =
      (log.drop (i + 1)).take (k - (i + 1)) ++ (t, b) :: log.drop (k + 1) := by
    have hdrop : log.drop k = (t, b) :: log.drop (k + 1) := by
      rw [drop_eq_getElem_cons hk, hkb]
    rw [← hdrop]
    conv_lhs => rw [← take_append_drop (k - (i + 1)) (log.drop (i + 1)),
      drop_drop, show i + 1 + (k - (i + 1)) = k by omega]
  have hlog : log = log.take i ++ (t, a) ::
      ((log.drop (i + 1)).take (k - (i + 1)) ++ (t, b) :: log.drop (k + 1)) := by
    conv_lhs => rw [← take_append_drop i log, drop_eq_getElem_cons hi, hia]
    rw [← hlast]
  apply h _ _ _ t a b x hlog hreads hwrites (u, c) _ hut hother
  apply mem_of_getElem? (i := j - (i + 1))
  rw [getElem?_take, if_pos (by omega), getElem?_drop, show i + 1 + (j - (i + 1)) = j by omega]
  exact hc

end Programs

section Machines

variable {M Op Ans R X : Type*}

def State.start (mem : M) : State M Op Ans R :=
  ⟨mem, false, fun _ => .idle, [], []⟩

def State.set (s : State M Op Ans R) (t : Nat) (thread : Thread Op Ans R) : State M Op Ans R :=
  { s with threads := update s.threads t thread }

@[simp] theorem State.set_same (s : State M Op Ans R) (t : Nat)
    (thread : Thread Op Ans R) : (s.set t thread).threads t = thread := by
  simp only [State.set, update_self]

@[simp] theorem State.set_other (s : State M Op Ans R) {t u : Nat} (h : u ≠ t)
    (thread : Thread Op Ans R) : (s.set t thread).threads u = s.threads u := by
  simp only [State.set, update_of_ne h]

namespace Machine

variable (m : Machine M Op Ans R)

/-- One test of the flag, after `tries` tests that found it taken. -/
def attempt (t tries : Nat) (s : State M Op Ans R) : State M Op Ans R :=
  if s.flag then
    if m.attempts ≤ tries + 1 then s.set t .refused
    else s.set t (.waiting (tries + 1))
  else { s.set t (.running (m.body t)) with flag := true }

def advance (t : Nat) : Prog Op Ans R → State M Op Ans R → State M Op Ans R
  | .done r, s =>
    if m.locks t then
      { s.set t (.returned r) with flag := false, completed := s.completed ++ [t] }
    else s.set t (.returned r)
  | .stop, s => s
  | .access op next, s =>
    { s.set t (.running (next (m.perform op s.mem).2)) with
      mem := (m.perform op s.mem).1
      log := s.log ++ [(t, op)] }

def step (t : Nat) (s : State M Op Ans R) : State M Op Ans R :=
  match s.threads t, m.locks t with
  | .idle, true => m.attempt t 0 s
  | .idle, false => m.advance t (m.body t) s
  | .waiting tries, true => m.attempt t tries s
  | .waiting _, false => s
  | .running rest, _ => m.advance t rest s
  | .returned _, _ => s
  | .refused, _ => s

/-- What a request does to the memory when nothing comes between. -/
def effect (t : Nat) (mem : M) : M :=
  ((m.body t).exec m.perform mem).1

def Outside (t : Nat) (s : State M Op Ans R) : Prop :=
  s.threads t = .idle ∨ ∃ tries, s.threads t = .waiting tries

def At (t : Nat) (rest : Prog Op Ans R) (s : State M Op Ans R) : Prop :=
  s.threads t = .running rest ∨ s.threads t = .idle ∧ m.locks t = false ∧ m.body t = rest

inductive Transition (t : Nat) (s : State M Op Ans R) : State M Op Ans R → Prop
  | stay : Transition t s s
  | wait (thread : Thread Op Ans R) (hthread : ∀ rest, thread ≠ .running rest)
      (hreturned : ∀ r, thread ≠ .returned r) (hlock : m.locks t = true)
      (houtside : Outside t s) : Transition t s (s.set t thread)
  | acquire (hlock : m.locks t = true) (hfree : s.flag = false)
      (houtside : Outside t s) :
      Transition t s { s.set t (.running (m.body t)) with flag := true }
  | release (r : R) (hlock : m.locks t = true)
      (hat : s.threads t = .running (.done r)) :
      Transition t s { s.set t (.returned r) with
        flag := false, completed := s.completed ++ [t] }
  | answer (r : R) (hlock : m.locks t = false) : Transition t s (s.set t (.returned r))
  | access (op : Op) (next : Ans → Prog Op Ans R)
      (hat : m.At t (.access op next) s) :
      Transition t s { s.set t (.running (next (m.perform op s.mem).2)) with
        mem := (m.perform op s.mem).1
        log := s.log ++ [(t, op)] }

variable {s s' : State M Op Ans R} {t : Nat} {writes : Op → X → Prop}

theorem attempt_transition {tries : Nat} (hlock : m.locks t = true) (houtside : Outside t s) :
    m.Transition t s (m.attempt t tries s) := by
  simp only [attempt]
  cases hflag : s.flag with
  | false => exact .acquire hlock hflag houtside
  | true =>
    simp only [if_true]
    split
    · exact .wait .refused (by simp) (by simp) hlock houtside
    · exact .wait (.waiting (tries + 1)) (by simp) (by simp) hlock houtside

theorem advance_transition {rest : Prog Op Ans R} (hat : m.At t rest s) :
    m.Transition t s (m.advance t rest s) := by
  cases rest with
  | done r =>
    simp only [advance]
    cases hlock : m.locks t with
    | false => exact .answer r hlock
    | true =>
      rcases hat with hrunning | ⟨_, hunlocked, _⟩
      · exact .release r hlock hrunning
      · rw [hlock] at hunlocked
        cases hunlocked
  | stop => exact .stay
  | access op next => exact .access op next hat

theorem step_transition (t : Nat) (s : State M Op Ans R) : m.Transition t s (m.step t s) := by
  simp only [step]
  cases hthread : s.threads t with
  | idle =>
    cases hlock : m.locks t with
    | false => exact m.advance_transition (.inr ⟨hthread, hlock, rfl⟩)
    | true => exact m.attempt_transition hlock (.inl hthread)
  | waiting tries =>
    cases hlock : m.locks t with
    | false => exact .stay
    | true => exact m.attempt_transition hlock (.inr ⟨tries, hthread⟩)
  | running rest => exact m.advance_transition (.inl hthread)
  | returned r => exact .stay
  | refused => exact .stay

variable {m}

theorem Transition.other {u : Nat} (h : m.Transition t s s') (hne : u ≠ t) :
    s'.threads u = s.threads u := by
  cases h with
  | stay => rfl
  | wait thread _ _ _ _ => exact s.set_other hne thread
  | acquire _ _ _ => exact s.set_other hne _
  | release r _ _ => exact s.set_other hne _
  | answer r _ => exact s.set_other hne _
  | access op next _ => exact s.set_other hne _

theorem At.running {rest : Prog Op Ans R} (hat : m.At t rest s) (hlock : m.locks t = true) :
    s.threads t = .running rest := by
  rcases hat with hrunning | ⟨_, hunlocked, _⟩
  · exact hrunning
  · rw [hlock] at hunlocked
    cases hunlocked

def Inside (m : Machine M Op Ans R) (t : Nat) (s : State M Op Ans R) : Prop :=
  m.locks t = true ∧ ∃ rest, s.threads t = .running rest

theorem Transition.inside {u : Nat} (h : m.Transition t s s') (hinside : m.Inside u s') :
    m.Inside u s ∨ u = t ∧ s.flag = false ∧ Outside t s ∧
      s' = { s.set t (.running (m.body t)) with flag := true } := by
  by_cases hu : u = t
  · subst hu
    obtain ⟨hlock, rest, hrunning⟩ := hinside
    cases h with
    | stay => exact .inl ⟨hlock, rest, hrunning⟩
    | wait thread hthread _ _ _ =>
      rw [State.set_same] at hrunning
      exact absurd hrunning (hthread rest)
    | acquire _ hfree houtside => exact .inr ⟨rfl, hfree, houtside, rfl⟩
    | release r _ hat => exact .inl ⟨hlock, _, hat⟩
    | answer r hunlocked =>
      rw [hlock] at hunlocked
      cases hunlocked
    | access op next hat => exact .inl ⟨hlock, _, hat.running hlock⟩
  · refine .inl ⟨hinside.1, ?_⟩
    rw [← h.other hu]
    exact hinside.2

/-- The flag is taken while a request has it, and at most one has it. -/
structure Exclusive (m : Machine M Op Ans R) (s : State M Op Ans R) : Prop where
  taken : ∀ t, m.Inside t s → s.flag = true
  unique : ∀ t u, m.Inside t s → m.Inside u s → t = u

theorem Exclusive.step (h : m.Exclusive s) (hstep : m.Transition t s s') : m.Exclusive s' := by
  constructor
  · intro u hu
    rcases hstep.inside hu with hu' | ⟨_, _, _, rfl⟩
    · have htaken := h.taken u hu'
      cases hstep with
      | stay => exact htaken
      | wait thread _ _ _ _ => exact htaken
      | acquire _ _ _ => rfl
      | release r hlock hat =>
        -- the one request that has the flag is the one that gives it back
        have hsame : u = t := h.unique u t hu' ⟨hlock, _, hat⟩
        subst hsame
        obtain ⟨_, rest, hrunning⟩ := hu
        exact absurd hrunning (by simp [State.set])
      | answer r _ => exact htaken
      | access op next _ => exact htaken
    · rfl
  · intro u v hu hv
    rcases hstep.inside hu with hu' | ⟨hut, hfree, _, _⟩
    · rcases hstep.inside hv with hv' | ⟨_, hfree, _, _⟩
      · exact h.unique u v hu' hv'
      · rw [h.taken u hu'] at hfree
        cases hfree
    · rcases hstep.inside hv with hv' | ⟨hvt, _, _, _⟩
      · rw [h.taken v hv'] at hfree
        cases hfree
      · rw [hut, hvt]

/-- A request that takes no flag starts on a memory on which it does not write. -/
def Calm (m : Machine M Op Ans R) (writes : Op → X → Prop) (t : Nat)
    (s : State M Op Ans R) : Prop :=
  s.threads t = .idle → m.locks t = false → (m.body t).QuietOn m.perform writes s.mem

/-- The running requests that took no flag do not write. -/
def QuietReaders (m : Machine M Op Ans R) (writes : Op → X → Prop) (s : State M Op Ans R) : Prop :=
  ∀ t rest, m.locks t = false → s.threads t = .running rest → rest.Quiet writes

/-- Without the flag a request neither writes now nor later. -/
theorem At.quiet {op : Op} {next : Ans → Prog Op Ans R} (hat : m.At t (.access op next) s)
    (hquiet : m.QuietReaders writes s) (hcalm : m.Calm writes t s) (hlock : m.locks t = false) :
    (∀ x, ¬writes op x) ∧ (next (m.perform op s.mem).2).Quiet writes := by
  rcases hat with hrunning | ⟨hidle, _, hbody⟩
  · exact (hquiet t _ hlock hrunning).quietOn s.mem
  have hstart := hcalm hidle hlock
  rw [hbody] at hstart
  exact hstart

theorem QuietReaders.step (h : m.QuietReaders writes s) (hcalm : m.Calm writes t s)
    (hstep : m.Transition t s s') : m.QuietReaders writes s' := by
  intro u rest hlock hrunning
  by_cases hu : u = t
  · subst hu
    cases hstep with
    | stay => exact h u rest hlock hrunning
    | wait thread hthread _ _ _ =>
      rw [State.set_same] at hrunning
      exact absurd hrunning (hthread rest)
    | acquire hlocked _ _ =>
      rw [hlock] at hlocked
      cases hlocked
    | release r hlocked _ =>
      rw [hlock] at hlocked
      cases hlocked
    | answer r _ =>
      rw [State.set_same] at hrunning
      cases hrunning
    | access op next hat =>
      simp only [State.set, update_self, Thread.running.injEq] at hrunning
      rw [← hrunning]
      exact (hat.quiet h hcalm hlock).2
  · rw [hstep.other hu] at hrunning
    exact h u rest hlock hrunning

/-- The memory is that of the completed requests one after the other, and a request that has the
flag is on its way from there to its own effect. -/
structure Linear (m : Machine M Op Ans R) (mem : M) (s : State M Op Ans R) : Prop where
  free : s.flag = false → s.mem = run m.effect s.completed mem
  held : ∀ t rest, m.locks t = true → s.threads t = .running rest →
    rest.exec m.perform s.mem = (m.body t).exec m.perform (run m.effect s.completed mem)

theorem Linear.unchanged {mem : M} (h : m.Linear mem s) (hstep : m.Transition t s s')
    (hmem : s'.mem = s.mem) (hflag : s'.flag = s.flag) (hcompleted : s'.completed = s.completed)
    (hself : m.locks t = true → ∀ rest, s'.threads t ≠ .running rest) : m.Linear mem s' := by
  constructor
  · intro hfree
    rw [hmem, hcompleted]
    exact h.free (hflag ▸ hfree)
  intro u rest hlock hrunning
  have hu : u ≠ t := by
    rintro rfl
    exact hself hlock rest hrunning
  rw [hstep.other hu] at hrunning
  rw [hmem, hcompleted]
  exact h.held u rest hlock hrunning

theorem Linear.step (hreads : ∀ op now, (∀ x, ¬writes op x) → (m.perform op now).1 = now) {mem : M}
    (h : m.Linear mem s) (hexclusive : m.Exclusive s) (hquiet : m.QuietReaders writes s)
    (hcalm : m.Calm writes t s) (hstep : m.Transition t s s') : m.Linear mem s' := by
  have hothers : ∀ u rest, m.Inside t s → m.locks u = true →
      s'.threads u = .running rest → u = t := by
    intro u rest ht hlock hrunning
    by_contra hu
    rw [hstep.other hu] at hrunning
    exact hu (hexclusive.unique u t ⟨hlock, rest, hrunning⟩ ht)
  have hunchanged := h.unchanged hstep
  cases hstep with
  | stay => exact h
  | wait thread hthread _ _ _ =>
    exact hunchanged rfl rfl rfl (fun _ rest => by simpa using hthread rest)
  | acquire _ hfree _ =>
    refine ⟨by simp, ?_⟩
    intro u rest hlock hrunning
    by_cases hu : u = t
    · subst hu
      simp only [State.set, update_self, Thread.running.injEq] at hrunning
      rw [← hrunning]
      exact congrArg _ (h.free hfree)
    · simp only [State.set, update_of_ne hu] at hrunning
      rw [hexclusive.taken u ⟨hlock, rest, hrunning⟩] at hfree
      cases hfree
  | release r hlock hat =>
    have heffect := congrArg Prod.fst (h.held t _ hlock hat)
    constructor
    · intro _
      simp only [run_append, run_cons, run_nil]
      exact heffect
    · intro u rest hlocked hrunning
      have hu := hothers u rest ⟨hlock, _, hat⟩ hlocked hrunning
      subst hu
      simp [State.set] at hrunning
  | answer r hunlocked =>
    exact hunchanged rfl rfl rfl (fun hlock => by simp [hlock] at hunlocked)
  | access op next hat =>
    cases hlock : m.locks t with
    | false =>
      have hsame := hreads op s.mem (hat.quiet hquiet hcalm hlock).1
      exact hunchanged hsame rfl rfl (fun hlocked => by simp [hlock] at hlocked)
    | true =>
      have hrun := hat.running hlock
      constructor
      · intro hfree
        have htaken := hexclusive.taken t ⟨hlock, _, hrun⟩
        exact Bool.noConfusion (htaken.symm.trans hfree)
      intro u rest hlocked hrunning
      have hu := hothers u rest ⟨hlock, _, hrun⟩ hlocked hrunning
      subst hu
      simp only [State.set, update_self, Thread.running.injEq] at hrunning
      rw [← hrunning]
      exact h.held u _ hlock hrun

/-- A request without the flag yet has made no access, no other request wrote since the first
access of the one that has the flag, and nothing came between a read and a write of one request.
-/
structure Ordered (m : Machine M Op Ans R) (reads writes : Op → X → Prop)
    (s : State M Op Ans R) : Prop where
  fresh : ∀ t, m.locks t = true → Outside t s → ∀ e ∈ s.log, e.1 ≠ t
  since : ∀ t, m.Inside t s → ∀ first op rest, s.log = first ++ (t, op) :: rest →
    ∀ e ∈ rest, e.1 ≠ t → ∀ x, ¬writes e.2 x
  serialized : Serialized reads writes s.log

theorem concat_eq_append_cons {α : Type*} {l first rest : List α} {a b : α}
    (h : l ++ [a] = first ++ b :: rest) :
    rest = [] ∧ l = first ∧ a = b ∨ ∃ rest', rest = rest' ++ [a] ∧ l = first ++ b :: rest' := by
  rcases eq_nil_or_concat rest with rfl | ⟨rest', last, rfl⟩
  · obtain ⟨hl, ha⟩ := append_inj' h rfl
    exact .inl ⟨rfl, hl, (cons.inj ha).1⟩
  rw [concat_eq_append] at h ⊢
  rw [← cons_append, ← append_assoc] at h
  obtain ⟨hl, ha⟩ := append_inj' h rfl
  rw [(cons.inj ha).1]
  exact .inr ⟨rest', rfl, hl⟩

/-- A step without an access leaves the order, unless it lets a request start over. -/
theorem Ordered.silent {reads : Op → X → Prop} (h : m.Ordered reads writes s)
    (hstep : m.Transition t s s') (hlog : s'.log = s.log) (hself : Outside t s' → Outside t s) :
    m.Ordered reads writes s' := by
  refine ⟨?_, ?_, hlog ▸ h.serialized⟩
  · intro u hlock hu
    rw [hlog]
    by_cases hut : u = t
    · subst hut
      exact h.fresh u hlock (hself hu)
    · simp only [Outside, hstep.other hut] at hu
      exact h.fresh u hlock hu
  · intro u hu first op rest hsplit
    rw [hlog] at hsplit
    rcases hstep.inside hu with hu' | ⟨rfl, _, hout, _⟩
    · exact h.since u hu' first op rest hsplit
    have hmem : (u, op) ∈ s.log := by
      rw [hsplit]
      exact mem_append_right first mem_cons_self
    exact absurd rfl (h.fresh u hu.1 hout _ hmem)

theorem Ordered.step {reads : Op → X → Prop} (h : m.Ordered reads writes s)
    (hexclusive : m.Exclusive s) (hquiet : m.QuietReaders writes s) (hcalm : m.Calm writes t s)
    (hstep : m.Transition t s s') : m.Ordered reads writes s' := by
  have houtside : ∀ u, Outside u s' → Outside u s ∨ u = t := by
    intro u hu
    by_cases hut : u = t
    · exact .inr hut
    · simp only [Outside, hstep.other hut] at hu
      exact .inl hu
  have hsilent := h.silent hstep
  cases hstep with
  | stay => exact h
  | wait thread _ _ hlock hout => exact hsilent rfl (fun _ => hout)
  | acquire hlock _ hout => exact hsilent rfl (fun _ => hout)
  | release r _ _ => exact hsilent rfl (by simp [Outside, State.set])
  | answer r _ => exact hsilent rfl (by simp [Outside])
  | access op next hat =>
    have hwriter : ∀ x, writes op x → m.Inside t s := by
      intro x hx
      cases hlock : m.locks t with
      | false => exact absurd hx ((hat.quiet hquiet hcalm hlock).1 x)
      | true => exact ⟨hlock, _, hat.running hlock⟩
    refine ⟨?_, ?_, ?_⟩
    · intro u hu hu' e he
      rcases houtside u hu' with hu'' | rfl
      · have hut : t ≠ u := by
          rintro rfl
          simp [Outside, State.set] at hu'
        rcases mem_append.mp he with he | he
        · exact h.fresh u hu hu'' e he
        · rw [mem_singleton.mp he]
          exact hut
      · simp [Outside, State.set] at hu'
    · intro u hu first op' rest hsplit e he hne x hx
      have hu' : m.Inside u s := by
        by_cases hut : u = t
        · subst hut
          exact ⟨hu.1, _, hat.running hu.1⟩
        refine ⟨hu.1, ?_⟩
        obtain ⟨rest', hrest'⟩ := hu.2
        simp only [State.set, update_of_ne hut] at hrest'
        exact ⟨rest', hrest'⟩
      rcases concat_eq_append_cons hsplit with ⟨rfl, _, _⟩ | ⟨rest', rfl, hlog⟩
      · cases he
      rcases mem_append.mp he with he | he
      · exact h.since u hu' first op' rest' hlog e he hne x hx
      -- the new access would be a second request with the flag
      rw [mem_singleton.mp he] at hx hne
      exact hne (hexclusive.unique t u (hwriter x hx) hu')
    · intro first mid rest u a b x hsplit ha hb e he hne hx
      rw [← cons_append, ← append_assoc] at hsplit
      rcases concat_eq_append_cons hsplit with ⟨rfl, hlog, hlast⟩ | ⟨rest', rfl, hlog⟩
      · obtain ⟨rfl, rfl⟩ := Prod.mk.inj hlast
        exact h.since t (hwriter x hb) first a mid hlog e he hne x hx
      · rw [append_assoc] at hlog
        exact h.serialized first mid rest' u a b x hlog ha hb e he hne hx

structure Counted (m : Machine M Op Ans R) (s : State M Op Ans R) : Prop where
  nodup : s.completed.Nodup
  mem_iff : ∀ t, t ∈ s.completed ↔ m.locks t = true ∧ ∃ r, s.threads t = .returned r

theorem Counted.unchanged (h : m.Counted s) (hstep : m.Transition t s s')
    (hcompleted : s'.completed = s.completed) (hbefore : t ∉ s.completed)
    (hafter : m.locks t = true → ∀ r, s'.threads t ≠ .returned r) : m.Counted s' := by
  refine ⟨hcompleted ▸ h.nodup, ?_⟩
  intro u
  rw [hcompleted]
  by_cases hu : u = t
  · subst hu
    exact iff_of_false hbefore (fun hreturned => hreturned.2.elim (hafter hreturned.1))
  · rw [h.mem_iff, hstep.other hu]

theorem Counted.step (h : m.Counted s) (hstep : m.Transition t s s') : m.Counted s' := by
  have hothers : ∀ u, u ≠ t → ((m.locks u = true ∧ ∃ r, s'.threads u = .returned r) ↔
      u ∈ s.completed) := by
    intro u hu
    rw [h.mem_iff, hstep.other hu]
  have hnot : (∀ r, s.threads t ≠ .returned r) → t ∉ s.completed := by
    intro hthread hmem
    obtain ⟨r, hr⟩ := ((h.mem_iff t).mp hmem).2
    exact hthread r hr
  have hunchanged := h.unchanged hstep
  cases hstep with
  | stay => exact h
  | wait thread _ hthread _ hout =>
    have hnew := hnot (by rcases hout with hout | ⟨_, hout⟩ <;> simp [hout])
    exact hunchanged rfl hnew (fun _ r hr => hthread r (by simpa using hr))
  | acquire _ _ hout =>
    have hnew := hnot (by rcases hout with hout | ⟨_, hout⟩ <;> simp [hout])
    exact hunchanged rfl hnew (by simp [State.set])
  | release r hlock hat =>
    have hnew := hnot (by simp [hat])
    refine ⟨nodup_append.mpr ⟨h.nodup, nodup_singleton t, ?_⟩, ?_⟩
    · rintro u hu v hv rfl
      rw [mem_singleton.mp hv] at hu
      exact hnew hu
    intro u
    by_cases hu : u = t
    · subst hu
      exact iff_of_true (by simp) ⟨hlock, r, by simp [State.set]⟩
    · rw [hothers u hu]
      simp [hu]
  | answer r hlock =>
    have hnew : t ∉ s.completed := by
      intro hmem
      exact Bool.noConfusion (hlock.symm.trans ((h.mem_iff t).mp hmem).1)
    exact hunchanged rfl hnew (by simp [hlock])
  | access op next hat =>
    have hnew := hnot (by rcases hat with hat | ⟨hat, _⟩ <;> simp [hat])
    exact hunchanged rfl hnew (by simp [State.set])

structure Atomic (m : Machine M Op Ans R) (reads writes : Op → X → Prop) (mem : M)
    (s : State M Op Ans R) : Prop where
  exclusive : m.Exclusive s
  quiet : m.QuietReaders writes s
  linear : m.Linear mem s
  ordered : m.Ordered reads writes s
  counted : m.Counted s

theorem atomic_start (m : Machine M Op Ans R) (reads writes : Op → X → Prop)
    (mem : M) : m.Atomic reads writes mem (State.start mem) where
  exclusive := ⟨by simp [Inside, State.start], by simp [Inside, State.start]⟩
  quiet := by simp [QuietReaders, State.start]
  linear := ⟨fun _ => rfl, by simp [State.start]⟩
  ordered := ⟨by simp [State.start], by simp [Inside, State.start],
    by simp [Serialized, State.start]⟩
  counted := ⟨by simp [State.start], by simp [State.start]⟩

/-- If accesses that do not write leave the memory alone, and requests without the flag start
where they do not write, the flag serializes the others. -/
theorem atomic_of_calm {reads : Op → X → Prop}
    (hreads : ∀ op now, (∀ x, ¬writes op x) → (m.perform op now).1 = now) {mem : M}
    (hreach : Reaches m.step (m.Calm writes) (State.start mem) s) :
    m.Atomic reads writes mem s := by
  apply hreach.invariant (m.atomic_start reads writes mem)
  intro t now hcalm h
  have hstep := m.step_transition t now
  exact ⟨h.exclusive.step hstep, h.quiet.step hcalm hstep,
    h.linear.step hreads h.exclusive h.quiet hcalm hstep,
    h.ordered.step h.exclusive h.quiet hcalm hstep, h.counted.step hstep⟩

end Machine

end Machines

end EchoLife.Interleave
