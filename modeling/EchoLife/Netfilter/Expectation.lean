import Mathlib.Tactic

/-!
The expectations of connection tracking. An expectation is registered for a master connection,
unless one that clashes with it is there; it is taken out when a matching packet arrives, when its
time is over, or to make room for another one of the same master. It is in the list exactly while
its timer runs. The list of a master has its expectations in the order of the list of all, so it
is not kept beside that.
-/

namespace EchoLife.Netfilter.Expectation

open List

/-- `struct nf_conntrack_tuple`, with the parts as numbers. -/
structure ConntrackTuple where
  l3num : Nat
  protonum : Nat
  src : Nat
  srcPort : Nat
  dst : Nat
  dstPort : Nat
  deriving DecidableEq

def agree (a b mask : Nat) : Bool :=
  (a ^^^ b) &&& mask == 0

def tupleMaskCmp (t tuple mask : ConntrackTuple) : Bool :=
  agree t.src tuple.src mask.src && agree t.dst tuple.dst mask.dst &&
    agree t.srcPort tuple.srcPort mask.srcPort &&
    agree t.dstPort tuple.dstPort mask.dstPort &&
    agree t.l3num tuple.l3num mask.l3num &&
    agree t.protonum tuple.protonum mask.protonum

def intersectMask (a b : ConntrackTuple) : ConntrackTuple :=
  { l3num := a.l3num &&& b.l3num
    protonum := a.protonum &&& b.protonum
    src := a.src &&& b.src
    srcPort := a.srcPort &&& b.srcPort
    dst := a.dst &&& b.dst
    dstPort := a.dstPort &&& b.dstPort }

/-- `struct nf_conntrack_expect`; `saved` is what NAT has kept in `saved_proto`. -/
structure ConntrackExpect where
  id : Nat
  master : Nat
  tuple : ConntrackTuple
  mask : ConntrackTuple
  saved : Nat
  permanent : Bool
  deriving DecidableEq

def expectMatches (a b : ConntrackExpect) : Bool :=
  a.master == b.master && a.tuple == b.tuple && a.mask == b.mask

def expectClash (a b : ConntrackExpect) : Bool :=
  tupleMaskCmp a.tuple b.tuple (intersectMask a.mask b.mask)

/-- `nf_conntrack_expect_list`, the newest first, and the last id given. -/
structure Expectations where
  list : List ConntrackExpect
  nextId : Nat
  deriving DecidableEq

def Expectations.empty : Expectations :=
  ⟨[], 0⟩

inductive Verdict where
  | refreshed
  | busy
  | fresh
  deriving DecidableEq

def walk (expect : ConntrackExpect) : List ConntrackExpect → Verdict
  | [] => .fresh
  | i :: rest =>
    if expectMatches i expect then .refreshed
    else if expectClash i expect then .busy
    else walk expect rest

def eraseOldest (p : ConntrackExpect → Bool) (list : List ConntrackExpect) : List ConntrackExpect :=
  (list.reverse.eraseP p).reverse

def expecting (t : Expectations) (master : Nat) : Nat :=
  t.list.countP (·.master == master)

def evictOldestExpect (t : Expectations) (master : Nat) : Expectations :=
  { t with list := eraseOldest (·.master == master) t.list }

def conntrackExpectInsert (t : Expectations) (expect : ConntrackExpect) : Expectations :=
  ⟨{ expect with id := t.nextId + 1 } :: t.list, t.nextId + 1⟩

def makeRoom (maxExpected : Nat) (t : Expectations) (master : Nat) : Expectations :=
  if maxExpected ≠ 0 ∧ maxExpected ≤ expecting t master then evictOldestExpect t master
  else t

/-- `nf_conntrack_expect_related`: whether it returns 0, and the table after it. -/
def conntrackExpectRelated (maxExpected : Nat) (t : Expectations)
    (expect : ConntrackExpect) : Bool × Expectations :=
  match walk expect t.list with
  | .refreshed => (true, t)
  | .busy => (false, t)
  | .fresh =>
    (true, conntrackExpectInsert (makeRoom maxExpected t expect.master) expect)

def conntrackUnexpectRelated (t : Expectations) (expect : ConntrackExpect) : Expectations :=
  { t with list := eraseOldest (expectMatches · expect) t.list }

def expectationTimedOut (t : Expectations) (id : Nat) : Expectations :=
  { t with list := t.list.filter (·.id != id) }

/-- `find_expectation`: an expectation whose master is confirmed is taken out, unless
it is a permanent one. -/
def findExpectation (t : Expectations) (tuple : ConntrackTuple) (confirmed : Nat → Bool) :
    Option (ConntrackExpect × Expectations) :=
  match t.list.find? (fun i => tupleMaskCmp tuple i.tuple i.mask) with
  | none => none
  | some exp =>
    if !confirmed exp.master then none
    else if exp.permanent then some (exp, t)
    else some (exp, expectationTimedOut t exp.id)

/-! ### What the operations leave -/

theorem eraseOldest_sublist (p : ConntrackExpect → Bool) (list : List ConntrackExpect) :
    (eraseOldest p list).Sublist list := by
  have herase := (eraseP_sublist (p := p) (l := list.reverse)).reverse
  rwa [reverse_reverse] at herase

section

variable (maxExpected : Nat) (t : Expectations) (master : Nat)

private theorem makeRoom_sublist : (makeRoom maxExpected t master).list.Sublist t.list := by
  unfold makeRoom
  split
  · exact eraseOldest_sublist _ _
  · exact List.Sublist.refl _

@[simp] theorem makeRoom_nextId : (makeRoom maxExpected t master).nextId = t.nextId := by
  unfold makeRoom
  split
  · rfl
  · rfl

end

variable {expect : ConntrackExpect}

/-- What is not in the way of an expectation neither matches it nor clashes with it. -/
theorem walk_eq_fresh {list : List ConntrackExpect} (h : walk expect list = .fresh) :
    ∀ i ∈ list, expectMatches i expect = false ∧ expectClash i expect = false := by
  induction list with
  | nil => simp
  | cons i rest ih =>
    unfold walk at h
    split at h
    · cases h
    split at h
    · cases h
    rename_i hmatches hclash
    refine forall_mem_cons.mpr ⟨?_, ih h⟩
    exact ⟨Bool.eq_false_of_not_eq_true hmatches, Bool.eq_false_of_not_eq_true hclash⟩

/-- The table is as it was, or it has given up some expectations and has one more that
nothing in it was in the way of. -/
theorem conntrackExpectRelated_cases (maxExpected : Nat) (t : Expectations)
    (expect : ConntrackExpect) :
    (conntrackExpectRelated maxExpected t expect).2 = t ∨
      ∃ kept, kept.Sublist t.list ∧
        (∀ i ∈ kept, expectMatches i expect = false) ∧
        (conntrackExpectRelated maxExpected t expect).2 =
          conntrackExpectInsert ⟨kept, t.nextId⟩ expect := by
  unfold conntrackExpectRelated
  cases hwalk : walk expect t.list with
  | refreshed => exact .inl rfl
  | busy => exact .inl rfl
  | fresh =>
    have hkept := makeRoom_sublist maxExpected t expect.master
    refine .inr ⟨(makeRoom maxExpected t expect.master).list, hkept, ?_, ?_⟩
    · intro i hi
      exact (walk_eq_fresh hwalk i (hkept.subset hi)).1
    · simp only [conntrackExpectInsert, makeRoom_nextId]

variable {t : Expectations} {kept : List ConntrackExpect}

theorem findExpectation_cases {t' : Expectations} {tuple : ConntrackTuple} {confirmed : Nat → Bool}
    {exp : ConntrackExpect} (h : findExpectation t tuple confirmed = some (exp, t')) :
    exp ∈ t.list ∧ tupleMaskCmp tuple exp.tuple exp.mask = true ∧
      (t' = t ∨ t' = expectationTimedOut t exp.id) := by
  unfold findExpectation at h
  cases hfind : t.list.find? (fun i => tupleMaskCmp tuple i.tuple i.mask) with
  | none => rw [hfind] at h; cases h
  | some found =>
    have hmem := mem_of_find?_eq_some hfind
    have hcmp := find?_some hfind
    rw [hfind] at h
    dsimp only at h
    split at h
    · cases h
    split at h
    · cases h
      exact ⟨hmem, hcmp, .inl rfl⟩
    · cases h
      exact ⟨hmem, hcmp, .inr rfl⟩

/-! ### No two that match -/

def matchKey (e : ConntrackExpect) : Nat × ConntrackTuple × ConntrackTuple :=
  (e.master, e.tuple, e.mask)

private theorem expectMatches_iff (a b : ConntrackExpect) :
    expectMatches a b = true ↔ matchKey a = matchKey b := by
  simp [expectMatches, matchKey, and_assoc]

/-- Ids have been given out, no two expectations share one, and no two of them match. -/
structure Expectations.Sound (t : Expectations) : Prop where
  given : ∀ e ∈ t.list, 0 < e.id ∧ e.id ≤ t.nextId
  ids : (t.list.map (·.id)).Nodup
  keys : (t.list.map matchKey).Nodup

theorem sound_empty : Expectations.empty.Sound :=
  ⟨by simp [Expectations.empty], nodup_nil, nodup_nil⟩

section

variable (h : t.Sound)
include h

theorem Expectations.Sound.sublist (hkept : kept.Sublist t.list) :
    Expectations.Sound ⟨kept, t.nextId⟩ :=
  ⟨fun e he => h.given e (hkept.subset he), h.ids.sublist (hkept.map _),
    h.keys.sublist (hkept.map _)⟩

theorem Expectations.Sound.insert (hfree : ∀ i ∈ t.list, expectMatches i expect = false) :
    (conntrackExpectInsert t expect).Sound := by
  constructor
  · refine forall_mem_cons.mpr ⟨⟨Nat.succ_pos _, le_refl _⟩, fun e hrest => ?_⟩
    have hgiven := h.given e hrest
    exact ⟨hgiven.1, Nat.le_succ_of_le hgiven.2⟩
  · refine nodup_cons.mpr ⟨?_, h.ids⟩
    intro hmem
    obtain ⟨i, hi, hid⟩ := mem_map.mp hmem
    have hgiven := (h.given i hi).2
    dsimp only at hid
    omega
  · refine nodup_cons.mpr ⟨?_, h.keys⟩
    intro hmem
    obtain ⟨i, hi, hkey⟩ := mem_map.mp hmem
    have hmatches : expectMatches i expect = true := (expectMatches_iff i expect).mpr hkey
    rw [hfree i hi] at hmatches
    cases hmatches

theorem Expectations.Sound.related (maxExpected : Nat) (expect : ConntrackExpect) :
    (conntrackExpectRelated maxExpected t expect).2.Sound := by
  rcases conntrackExpectRelated_cases maxExpected t expect with
    hsame | ⟨kept, hkept, hfree, hinsert⟩
  · rw [hsame]
    exact h
  · rw [hinsert]
    exact (h.sublist hkept).insert hfree

end

/-- From one table to a later one: ids are not given again, and what is new has the
property. -/
structure Grows (New : ConntrackExpect → Prop) (t t' : Expectations) : Prop where
  sound : t.Sound → t'.Sound
  next : t.nextId ≤ t'.nextId
  mem : ∀ e ∈ t'.list, e ∈ t.list ∨ t.nextId < e.id ∧ New e

section
variable {New : ConntrackExpect → Prop}

theorem Grows.refl (t : Expectations) : Grows New t t :=
  ⟨id, le_refl _, fun _ he => .inl he⟩

theorem Grows.trans {t₁ t₂ t₃ : Expectations} (h₁ : Grows New t₁ t₂)
    (h₂ : Grows New t₂ t₃) : Grows New t₁ t₃ := by
  refine ⟨fun h => h₂.sound (h₁.sound h), h₁.next.trans h₂.next, ?_⟩
  intro e he
  rcases h₂.mem e he with hold | ⟨hid, hnew⟩
  · exact h₁.mem e hold
  · exact .inr ⟨lt_of_le_of_lt h₁.next hid, hnew⟩

theorem Grows.sublist (t : Expectations)
    (hkept : kept.Sublist t.list) : Grows New t ⟨kept, t.nextId⟩ :=
  ⟨fun h => h.sublist hkept, le_refl _, fun _ he => .inl (hkept.subset he)⟩

theorem Grows.related (maxExpected : Nat) (t : Expectations)
    (hnew : ∀ id, New { expect with id := id }) :
    Grows New t (conntrackExpectRelated maxExpected t expect).2 := by
  refine ⟨fun h => h.related maxExpected expect, ?_, ?_⟩
  · rcases conntrackExpectRelated_cases maxExpected t expect with
      hsame | ⟨kept, _, _, hinsert⟩
    · rw [hsame]
    · rw [hinsert]
      exact Nat.le_succ _
  · intro e he
    rcases conntrackExpectRelated_cases maxExpected t expect with
      hsame | ⟨kept, hkept, _, hinsert⟩
    · exact .inl (hsame ▸ he)
    rw [hinsert] at he
    rcases mem_cons.mp he with rfl | hrest
    · exact .inr ⟨Nat.lt_succ_self _, hnew _⟩
    · exact .inl (hkept.subset hrest)

theorem Grows.unexpect (t : Expectations) (expect : ConntrackExpect) :
    Grows New t (conntrackUnexpectRelated t expect) :=
  .sublist t (eraseOldest_sublist _ _)

theorem Grows.timedOut (t : Expectations) (id : Nat) : Grows New t (expectationTimedOut t id) :=
  .sublist t filter_sublist

theorem Grows.mem_of_id {t' : Expectations} (h : Grows New t t') {e : ConntrackExpect}
    (he : e ∈ t'.list) (hid : e.id ≤ t.nextId) : e ∈ t.list := by
  rcases h.mem e he with hold | ⟨hlate, _⟩
  · exact hold
  · exact absurd hid (Nat.not_le_of_lt hlate)

end

section

variable (h : t.Sound) {a b : ConntrackExpect} (ha : a ∈ t.list) (hb : b ∈ t.list)
include h ha hb

theorem Expectations.Sound.eq_of_id (hid : a.id = b.id) : a = b :=
  inj_on_of_nodup_map h.ids ha hb hid

theorem Expectations.Sound.eq_of_key (hkey : matchKey a = matchKey b) : a = b :=
  inj_on_of_nodup_map h.keys ha hb hkey

end

end EchoLife.Netfilter.Expectation
