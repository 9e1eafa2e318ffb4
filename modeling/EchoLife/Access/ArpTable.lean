import Mathlib.Tactic

/-!
Making room in the ARP table. `atp_find_neigh` marks the entry of one bucket that has been unused
longest, and `atp_delete_neigh` unlinks what is marked. Each of them takes the bucket at the
cursor and moves the cursor on.
-/

namespace EchoLife.ArpTable

open Function List

inductive NudState
  | none
  | incomplete
  | reachable
  | stale
  | delay
  | probe
  | failed
  | noarp
  | permanent
  deriving DecidableEq

/-- `NUD_PERMANENT | NUD_IN_TIMER`. -/
def NudState.skipped : NudState → Bool
  | .incomplete | .reachable | .delay | .probe | .permanent => true
  | _ => false

structure Neighbour where
  -- where the entry lies, so that no two have the same
  address : Nat
  nudState : NudState
  refcnt : Nat
  used : UInt32
  confirmed : UInt32
  gcStaletime : UInt32
  dead : Bool

/-- `hash_mask + 1` is a power of two from 2 on. -/
structure NeighTable (n : Nat) where
  hashBuckets : Fin (n + 2) → List Neighbour
  hashChainGc : Fin (n + 2)
  gcStaletime : UInt32

def timeBefore (a b : UInt32) : Bool :=
  2 ^ 31 ≤ (a - b).toNat

def Neighbour.refresh (e : Neighbour) : Neighbour :=
  if !e.nudState.skipped && timeBefore e.used e.confirmed then { e with used := e.confirmed } else e

/-- Stale or failed, and only the table refers to it. -/
def Neighbour.Idle (e : Neighbour) : Prop :=
  e.refcnt = 1 ∧ (e.nudState = .stale ∨ e.nudState = .failed)

instance (e : Neighbour) : Decidable e.Idle :=
  inferInstanceAs (Decidable (_ ∧ _))

/-- The time that is left; it wraps for an entry that has been unused for longer. -/
def Neighbour.left (now : UInt32) (e : Neighbour) : UInt32 :=
  e.gcStaletime - (now - e.used)

def chooseStep (now : UInt32) (best : UInt32 × Option Nat) (e : Neighbour) : UInt32 × Option Nat :=
  if e.Idle ∧ e.left now < best.1 then (e.left now, some e.address) else best

def Neighbour.condemn (address : Nat) (e : Neighbour) : Neighbour :=
  if e.address = address then { e with nudState := .failed, dead := true } else e

variable {n : Nat}

section
variable (tbl : NeighTable n)

def NeighTable.scanned : List Neighbour :=
  tbl.hashBuckets tbl.hashChainGc

def NeighTable.pass (bucket : List Neighbour) : NeighTable n :=
  { tbl with
    hashBuckets := update tbl.hashBuckets tbl.hashChainGc bucket
    hashChainGc := tbl.hashChainGc + 1 }

def atpDeleteNeigh : NeighTable n :=
  tbl.pass (tbl.scanned.filter fun e => ¬(e.refcnt = 1 ∧ e.nudState = .failed))

def atpFindNeigh (now : UInt32) (tbl : NeighTable n) : NeighTable n :=
  let bucket := tbl.scanned.map .refresh
  match (bucket.foldl (chooseStep now) (tbl.gcStaletime, none)).2 with
  | none => tbl.pass bucket
  | some address => atpDeleteNeigh (tbl.pass (bucket.map (.condemn address)))

def Linked (address : Nat) : Prop :=
  ∃ slot, ∃ e ∈ tbl.hashBuckets slot, e.address = address

end

/-- The idle entry that has been unused longest is unlinked, and no entry that is in use; what is
dead is unlinked. -/
structure Evicts (now : UInt32) (tbl : NeighTable n) : Prop where
  oldest : (∃ e ∈ tbl.scanned, e.Idle) →
    ∃ e ∈ tbl.scanned, e.Idle ∧
      (∀ other ∈ tbl.scanned, other.Idle → now - other.refresh.used ≤ now - e.refresh.used) ∧
      ¬Linked (atpFindNeigh now tbl) e.address
  kept : ∀ slot, ∀ e ∈ tbl.hashBuckets slot,
    e.nudState = .reachable ∨ e.nudState = .permanent ∨ 1 < e.refcnt →
    Linked (atpFindNeigh now tbl) e.address
  live : ∀ slot, ∀ e ∈ (atpFindNeigh now tbl).hashBuckets slot, e.dead = false

variable {now : UInt32} {tbl : NeighTable n}

theorem refresh_keeps (e : Neighbour) :
    e.refresh.address = e.address ∧ e.refresh.dead = e.dead ∧ (e.refresh.Idle ↔ e.Idle) := by
  unfold Neighbour.refresh
  split
  · exact ⟨rfl, rfl, Iff.rfl⟩
  · exact ⟨rfl, rfl, Iff.rfl⟩

private theorem condemn_address (address : Nat) (e : Neighbour) :
    (e.condemn address).address = e.address := by
  unfold Neighbour.condemn
  split <;> rfl

-- What is condemned is unlinked from the next bucket, and there are two buckets at least.
private theorem linked_of_mem_scanned {e : Neighbour} (he : e ∈ tbl.scanned) :
    Linked (atpFindNeigh now tbl) e.address := by
  have hmem : e.refresh ∈ tbl.scanned.map .refresh := mem_map_of_mem he
  have haddress := (refresh_keeps e).1
  refine ⟨tbl.hashChainGc, ?_⟩
  unfold atpFindNeigh
  dsimp only
  split
  · exact ⟨e.refresh, by simpa only [NeighTable.pass, update_self] using hmem, haddress⟩
  next address _ =>
    have hnext : tbl.hashChainGc ≠ tbl.hashChainGc + 1 := by
      intro heq
      exact one_ne_zero (add_eq_left.mp heq.symm)
    refine ⟨e.refresh.condemn address, ?_, (condemn_address _ _).trans haddress⟩
    simp only [atpDeleteNeigh, NeighTable.pass, update_of_ne hnext, update_self]
    exact mem_map_of_mem hmem

theorem choose_none {bucket : List Neighbour} (hidle : ∀ e ∈ bucket, ¬e.Idle) (least : UInt32) :
    bucket.foldl (chooseStep now) (least, none) = (least, none) := by
  induction bucket with
  | nil => rfl
  | cons e bucket ih =>
    obtain ⟨he, hrest⟩ := forall_mem_cons.mp hidle
    rw [foldl_cons, chooseStep, if_neg (fun h => he h.1)]
    exact ih hrest

private theorem bucket_of_none_idle (now : UInt32) (hidle : ∀ e ∈ tbl.scanned, ¬e.Idle)
    (slot : Fin (n + 2)) :
    ∃ f : Neighbour → Neighbour, (∀ e, (f e).address = e.address ∧ (f e).dead = e.dead) ∧
      (atpFindNeigh now tbl).hashBuckets slot = (tbl.hashBuckets slot).map f := by
  have hnone : ∀ e ∈ tbl.scanned.map Neighbour.refresh, ¬e.Idle := by
    rw [forall_mem_map]
    exact fun e he => (refresh_keeps e).2.2.not.mpr (hidle e he)
  unfold atpFindNeigh
  dsimp only
  rw [choose_none hnone]
  by_cases hslot : slot = tbl.hashChainGc
  · refine ⟨.refresh, fun e => ⟨(refresh_keeps e).1, (refresh_keeps e).2.1⟩, ?_⟩
    rw [hslot]
    exact update_self ..
  · refine ⟨id, fun _ => ⟨rfl, rfl⟩, ?_⟩
    rw [map_id]
    exact update_of_ne hslot ..

/-- The call does what it is for exactly if the bucket has no entry to evict, and no dead entry
was linked before. -/
theorem evicts_iff (now : UInt32) (tbl : NeighTable n) :
    Evicts now tbl ↔
      (∀ e ∈ tbl.scanned, ¬e.Idle) ∧ ∀ slot, ∀ e ∈ tbl.hashBuckets slot, e.dead = false := by
  constructor
  · intro h
    have hidle : ∀ e ∈ tbl.scanned, ¬e.Idle := by
      intro e he hidle
      obtain ⟨oldest, hmem, -, -, hgone⟩ := h.oldest ⟨e, he, hidle⟩
      exact hgone (linked_of_mem_scanned hmem)
    refine ⟨hidle, fun slot e he => ?_⟩
    obtain ⟨f, hf, hbucket⟩ := bucket_of_none_idle now hidle slot
    rw [← (hf e).2]
    exact h.live slot (f e) (hbucket ▸ mem_map_of_mem he)
  · rintro ⟨hidle, hlive⟩
    refine ⟨fun ⟨e, he, hstale⟩ => absurd hstale (hidle e he), ?_, ?_⟩
    · intro slot e he _
      obtain ⟨f, hf, hbucket⟩ := bucket_of_none_idle now hidle slot
      exact ⟨slot, f e, hbucket ▸ mem_map_of_mem he, (hf e).1⟩
    · intro slot e he
      obtain ⟨f, hf, hbucket⟩ := bucket_of_none_idle now hidle slot
      rw [hbucket] at he
      obtain ⟨before, hbefore, rfl⟩ := mem_map.mp he
      exact (hf before).2.trans (hlive slot before hbefore)

def staleEntry : Neighbour where
  address := 1
  nudState := .stale
  refcnt := 1
  used := 0
  confirmed := 0
  gcStaletime := 12000
  dead := false

/-- The only entry is stale and is marked dead, but stays linked. -/
theorem stale_entry_dead_and_linked :
    ¬Evicts 100 (⟨![[staleEntry], []], 0, 12000⟩ : NeighTable 0) := by
  intro h
  have hmem : { staleEntry with nudState := .failed, dead := true } ∈
      (atpFindNeigh 100 (⟨![[staleEntry], []], 0, 12000⟩ : NeighTable 0)).hashBuckets 0 :=
    mem_singleton.mpr rfl
  cases h.live 0 _ hmem

end EchoLife.ArpTable
