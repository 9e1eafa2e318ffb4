import Mathlib.Data.List.Range
import Mathlib.Logic.Function.Basic
import Mathlib.Tactic

/-!
The lease table of the DHCP server: an array of which the first `maxLeases` entries are in use. A
hardware address is its 16 bytes as one word, and an IP address is the number in network order,
which is the order of the processor. A cleared entry is all zero.
-/

namespace EchoLife.Dhcp

open Function List

abbrev Chaddr := BitVec 128

/-- `struct dhcpOfferedAddr`, without the texts no lookup reads. -/
@[ext]
structure Lease where
  chaddr : Chaddr
  yiaddr : Nat
  expires : Nat
  deriving DecidableEq

def Lease.blank : Lease := ⟨0, 0, 0⟩

/-- The entries that `clear_lease` clears. -/
def Lease.Clashes (l : Lease) (chaddr : Chaddr) (yiaddr : Nat) : Prop :=
  (chaddr ≠ 0 ∧ l.chaddr = chaddr) ∨ (yiaddr ≠ 0 ∧ l.yiaddr = yiaddr)

instance (l : Lease) (chaddr : Chaddr) (yiaddr : Nat) : Decidable (l.Clashes chaddr yiaddr) :=
  inferInstanceAs (Decidable (_ ∨ _))

section
variable (now maxLeases : Nat) (leases : Nat → Lease) (chaddr : Chaddr) (yiaddr : Nat)

def clearLease
    : Nat → Lease :=
  fun i => if i < maxLeases ∧ (leases i).Clashes chaddr yiaddr then Lease.blank
    else leases i

def leaseExpired (lease : Lease) : Bool :=
  lease.expires < now

def oldestExpiredLoop (leases : Nat → Lease) : List Nat → Nat → Option Nat → Option Nat
  | [], _, oldest => oldest
  | i :: rest, oldestLease, oldest =>
    if (leases i).expires < oldestLease then
      oldestExpiredLoop leases rest (leases i).expires (some i)
    else oldestExpiredLoop leases rest oldestLease oldest

def oldestExpiredLease : Option Nat :=
  oldestExpiredLoop leases (range maxLeases) now none

/-- `add_lease`: the table, and whether there was an entry to take. -/
def addLease
    (lease : Nat) : (Nat → Lease) × Bool :=
  let leases := clearLease maxLeases leases chaddr yiaddr
  match oldestExpiredLease now maxLeases leases with
  | none => (leases, false)
  | some oldest =>
    (update leases oldest ⟨chaddr, yiaddr, (now + lease) % 2 ^ 32⟩, true)

def findLease (wanted : Lease → Prop)
    [DecidablePred wanted] : Option Nat :=
  (range maxLeases).find? (fun i => wanted (leases i))

/-- `find_lease_by_chaddr`, and `find_lease_two_by_chaddr` on the other table. -/
def findLeaseByChaddr : Option Nat :=
  findLease maxLeases leases (fun l => l.chaddr = chaddr)

def findLeaseByYiaddr : Option Nat :=
  findLease maxLeases leases (fun l => l.yiaddr = yiaddr)

end

variable {leases : Nat → Lease} {n yiaddr limit : Nat} {chaddr : Chaddr} {i now : Nat}

section

variable {wanted : Lease → Prop} [DecidablePred wanted]

theorem findLease_some (h : findLease n leases wanted = some i) : i < n ∧ wanted (leases i) := by
  have hfound := find?_some h
  have hmem := mem_of_find?_eq_some h
  exact ⟨mem_range.mp hmem, of_decide_eq_true hfound⟩

theorem findLease_none
    (h : findLease n leases wanted = none) (hi : i < n) : ¬wanted (leases i) := by
  have habsent := find?_eq_none.mp h i (mem_range.mpr hi)
  exact fun hwanted => habsent (decide_eq_true hwanted)

theorem findLease_unique (hi : i < n) (hwanted : wanted (leases i))
    (hothers : ∀ j, j < n → j ≠ i → ¬wanted (leases j)) : findLease n leases wanted = some i := by
  cases hfind : findLease n leases wanted with
  | none => exact absurd hwanted (findLease_none hfind hi)
  | some j =>
    obtain ⟨hj, hfound⟩ := findLease_some hfind
    by_contra hne
    exact hothers j hj (fun heq => hne (congrArg some heq)) hfound

end

/-- What the loop returns was expired, and it returns something if one of the entries left is. -/
theorem oldestExpiredLoop_spec (indices : List Nat) {oldestLease : Nat}
    {oldest : Option Nat} (hbound : oldestLease ≤ now) :
    (∀ i, oldestExpiredLoop leases indices oldestLease oldest = some i →
      oldest = some i ∨ (i ∈ indices ∧ (leases i).expires < now)) ∧
    (oldestExpiredLoop leases indices oldestLease oldest = none →
      oldest = none ∧ ∀ i ∈ indices, oldestLease ≤ (leases i).expires) := by
  induction indices generalizing oldestLease oldest with
  | nil => simp [oldestExpiredLoop]
  | cons j rest ih =>
    simp only [oldestExpiredLoop]
    split
    · obtain ⟨hsome, hnone⟩ := @ih (leases j).expires (some j) (by omega)
      constructor
      · intro i hi
        rcases hsome i hi with hj | ⟨hmem, hexpired⟩
        · cases hj
          exact .inr ⟨mem_cons_self, by omega⟩
        · exact .inr ⟨mem_cons_of_mem j hmem, hexpired⟩
      · intro hi
        cases (hnone hi).1
    · obtain ⟨hsome, hnone⟩ := @ih oldestLease oldest hbound
      constructor
      · intro i hi
        refine (hsome i hi).imp_right ?_
        rintro ⟨hmem, hexpired⟩
        exact ⟨mem_cons_of_mem j hmem, hexpired⟩
      intro hi
      obtain ⟨hempty, hrest⟩ := hnone hi
      refine ⟨hempty, ?_⟩
      intro i hmem
      rcases mem_cons.mp hmem with rfl | htail
      · omega
      · exact hrest i htail

theorem oldestExpiredLease_some (h : oldestExpiredLease now n leases = some i) :
    i < n ∧ (leases i).expires < now := by
  rcases (oldestExpiredLoop_spec (range n) (le_refl now)).1 i h with
    hnone | ⟨hmem, hexpired⟩
  · cases hnone
  · exact ⟨mem_range.mp hmem, hexpired⟩

private theorem oldestExpiredLease_none (h : oldestExpiredLease now n leases = none) (hi : i < n) :
    now ≤ (leases i).expires :=
  ((oldestExpiredLoop_spec (range n) (le_refl now)).2 h).2 i (mem_range.mpr hi)

theorem clearLease_of_clash (hi : i < n) (h : (leases i).Clashes chaddr yiaddr) :
    clearLease n leases chaddr yiaddr i = Lease.blank := by
  simp only [clearLease]
  rw [if_pos ⟨hi, h⟩]

theorem clearLease_of_no_clash (h : ¬(leases i).Clashes chaddr yiaddr) :
    clearLease n leases chaddr yiaddr i = leases i := by
  simp only [clearLease]
  rw [if_neg (fun hboth => h hboth.2)]

theorem clearLease_cases (n : Nat) (leases : Nat → Lease) (chaddr : Chaddr) (yiaddr i : Nat) :
    clearLease n leases chaddr yiaddr i = leases i ∨
      clearLease n leases chaddr yiaddr i = Lease.blank := by
  simp only [clearLease]
  split
  · exact .inr rfl
  · exact .inl rfl

theorem Lease.blank_no_clash (chaddr : Chaddr) (yiaddr : Nat) :
    ¬Lease.blank.Clashes chaddr yiaddr := by
  rintro (⟨hne, hzero⟩ | ⟨hne, hzero⟩)
  · exact hne hzero.symm
  · exact hne hzero.symm

theorem clearLease_no_clash (leases : Nat → Lease) (chaddr : Chaddr) (yiaddr : Nat) (hi : i < n) :
    ¬(clearLease n leases chaddr yiaddr i).Clashes chaddr yiaddr := by
  by_cases hclash : (leases i).Clashes chaddr yiaddr
  · rw [clearLease_of_clash hi hclash]
    exact Lease.blank_no_clash chaddr yiaddr
  · rw [clearLease_of_no_clash hclash]
    exact hclash

/-- `add_lease` takes an entry that clashes or has expired and clears the other clashing ones, or
nothing clashes and it changes nothing. -/
theorem addLease_cases (hnow : 0 < now) (n : Nat) (leases : Nat → Lease)
    (chaddr : Chaddr) (yiaddr lease : Nat) :
    (∃ i, i < n ∧ (addLease now n leases chaddr yiaddr lease).2 = true ∧
      ((leases i).Clashes chaddr yiaddr ∨ (leases i).expires < now) ∧
      (addLease now n leases chaddr yiaddr lease).1 =
        update (clearLease n leases chaddr yiaddr) i ⟨chaddr, yiaddr, (now + lease) % 2 ^ 32⟩) ∨
    ((addLease now n leases chaddr yiaddr lease).2 = false ∧
      (∀ i, i < n → ¬(leases i).Clashes chaddr yiaddr) ∧
      ∀ i, i < n → (addLease now n leases chaddr yiaddr lease).1 i = leases i) := by
  cases holdest : oldestExpiredLease now n (clearLease n leases chaddr yiaddr) with
  | some i =>
    obtain ⟨hi, hexpired⟩ := oldestExpiredLease_some holdest
    refine .inl ⟨i, hi, by simp [addLease, holdest], ?_, by simp [addLease, holdest]⟩
    by_cases hclash : (leases i).Clashes chaddr yiaddr
    · exact .inl hclash
    · rw [clearLease_of_no_clash hclash] at hexpired
      exact .inr hexpired
  | none =>
    -- a cleared entry would have expired at time 0
    have hfree : ∀ i, i < n → ¬(leases i).Clashes chaddr yiaddr := by
      intro i hi hclash
      have hyoung := oldestExpiredLease_none holdest hi
      rw [clearLease_of_clash hi hclash] at hyoung
      simp only [Lease.blank] at hyoung
      omega
    refine .inr ⟨by simp [addLease, holdest], hfree, ?_⟩
    intro i hi
    simp only [addLease, holdest]
    exact clearLease_of_no_clash (hfree i hi)

/-- The table holds `yiaddr` for `chaddr` at least up to `limit`, in one entry without
competitors. -/
def Holds (n : Nat) (leases : Nat → Lease) (chaddr : Chaddr) (yiaddr limit : Nat) : Prop :=
  ∃ i, i < n ∧ (leases i).chaddr = chaddr ∧ (leases i).yiaddr = yiaddr ∧
    limit ≤ (leases i).expires ∧
    ∀ j, j < n → j ≠ i → ¬(leases j).Clashes chaddr yiaddr

section

variable (h : Holds n leases chaddr yiaddr limit)
include h

theorem Holds.findByChaddr (hclient : chaddr ≠ 0) :
    ∃ i, findLeaseByChaddr n leases chaddr = some i ∧ (leases i).yiaddr = yiaddr ∧
      limit ≤ (leases i).expires := by
  obtain ⟨i, hi, hchaddr, hyiaddr, hlimit, hothers⟩ := h
  refine ⟨i, findLease_unique hi hchaddr ?_, hyiaddr, hlimit⟩
  intro j hj hne hsame
  exact hothers j hj hne (.inl ⟨hclient, hsame⟩)

theorem Holds.findByYiaddr (haddress : yiaddr ≠ 0) :
    ∃ i, findLeaseByYiaddr n leases yiaddr = some i ∧ limit ≤ (leases i).expires := by
  obtain ⟨i, hi, _, hyiaddr, hlimit, hothers⟩ := h
  refine ⟨i, findLease_unique hi hyiaddr ?_, hlimit⟩
  intro j hj hne hsame
  exact hothers j hj hne (.inr ⟨haddress, hsame⟩)

theorem Holds.owner (haddress : yiaddr ≠ 0)
    {j : Nat} (hj : j < n) (hyiaddr : (leases j).yiaddr = yiaddr) :
    (leases j).chaddr = chaddr ∧ limit ≤ (leases j).expires := by
  obtain ⟨i, _, hchaddr, _, hlimit, hothers⟩ := h
  by_cases hij : j = i
  · rw [hij]
    exact ⟨hchaddr, hlimit⟩
  · exact absurd (.inr ⟨haddress, hyiaddr⟩) (hothers j hj hij)

end

theorem Holds.mono {limit' : Nat} (h : Holds n leases chaddr yiaddr limit)
    (hle : limit' ≤ limit) : Holds n leases chaddr yiaddr limit' := by
  obtain ⟨i, hi, hchaddr, hyiaddr, hlimit, hothers⟩ := h
  exact ⟨i, hi, hchaddr, hyiaddr, hle.trans hlimit, hothers⟩

theorem holds_addLease (hnow : 0 < now) {lease : Nat} (hwrap : now + lease < 2 ^ 32)
    (hclash : ∃ j, j < n ∧ (leases j).Clashes chaddr yiaddr) :
    Holds n (addLease now n leases chaddr yiaddr lease).1 chaddr yiaddr (now + lease) := by
  rcases addLease_cases hnow n leases chaddr yiaddr lease with
    ⟨i, hi, _, _, htable⟩ | ⟨_, hfree, _⟩
  · rw [htable]
    refine ⟨i, hi, by simp, by simp, ?_, ?_⟩
    · simp only [update_self, Nat.mod_eq_of_lt hwrap]
      exact le_rfl
    intro j hj hne
    rw [update_of_ne hne]
    exact clearLease_no_clash leases chaddr yiaddr hj
  · obtain ⟨j, hj, hother⟩ := hclash
    exact absurd hother (hfree j hj)

variable {holder : Chaddr} {address : Nat}

/-- `add_lease` for another client and address leaves a running lease alone. -/
theorem Holds.addLease_other (hnow : 0 < now) (h : Holds n leases holder address limit)
    (hactive : now < limit) (hclient : holder = 0 ∨ chaddr ≠ holder) (hother : yiaddr ≠ address)
    (lease : Nat) : Holds n (addLease now n leases chaddr yiaddr lease).1 holder address limit := by
  obtain ⟨i, hi, hchaddr, hyiaddr, hlimit, hothers⟩ := h
  have hkept : ¬(leases i).Clashes chaddr yiaddr := by
    rintro (⟨hne, hsame⟩ | ⟨_, hsame⟩)
    · rw [hchaddr] at hsame
      rcases hclient with hzero | hdiffer
      · exact hne (hsame.symm.trans hzero)
      · exact hdiffer hsame.symm
    · exact hother (hsame.symm.trans hyiaddr)
  have hcleared {j : Nat} (hj : j < n) (hne : j ≠ i) :
      ¬(clearLease n leases chaddr yiaddr j).Clashes holder address := by
    rcases clearLease_cases n leases chaddr yiaddr j with hkept | hblank
    · rw [hkept]
      exact hothers j hj hne
    · rw [hblank]
      exact Lease.blank_no_clash holder address
  rcases addLease_cases hnow n leases chaddr yiaddr lease with
    ⟨k, _, _, hslot, htable⟩ | ⟨_, _, hsame⟩
  · have hik : i ≠ k := by
      rintro rfl
      rcases hslot with hclash | hexpired
      · exact hkept hclash
      · omega
    rw [htable]
    refine ⟨i, hi, ?_, ?_, ?_, ?_⟩
    · rw [update_of_ne hik, clearLease_of_no_clash hkept, hchaddr]
    · rw [update_of_ne hik, clearLease_of_no_clash hkept, hyiaddr]
    · rw [update_of_ne hik, clearLease_of_no_clash hkept]
      exact hlimit
    intro j hj hne
    by_cases hjk : j = k
    · subst hjk
      rw [update_self]
      rintro (⟨hnonzero, hsame⟩ | ⟨_, hsame⟩)
      · exact hclient.elim hnonzero (fun hdiffer => hdiffer hsame)
      · exact hother hsame
    · rw [update_of_ne hjk]
      exact hcleared hj hne
  · refine ⟨i, hi, ?_, ?_, ?_, ?_⟩
    · rw [hsame i hi, hchaddr]
    · rw [hsame i hi, hyiaddr]
    · rw [hsame i hi]
      exact hlimit
    · intro j hj hne
      rw [hsame j hj]
      exact hothers j hj hne

theorem Holds.update_other (h : Holds n leases holder address limit) {k : Nat} {entry : Lease}
    (hother : (leases k).chaddr ≠ holder ∨ (leases k).yiaddr ≠ address)
    (hyiaddr : entry.yiaddr = (leases k).yiaddr)
    (hchaddr : entry.chaddr = (leases k).chaddr ∨ entry.chaddr = 0) :
    Holds n (update leases k entry) holder address limit := by
  obtain ⟨i, hi, hholder, haddress, hlimit, hothers⟩ := h
  have hik : i ≠ k := by
    rintro rfl
    exact hother.elim (fun hne => hne hholder) (fun hne => hne haddress)
  refine ⟨i, hi, ?_, ?_, ?_, ?_⟩
  · rw [update_of_ne hik, hholder]
  · rw [update_of_ne hik, haddress]
  · rw [update_of_ne hik]
    exact hlimit
  intro j hj hne
  by_cases hjk : j = k
  · subst hjk
    rw [update_self]
    rintro (⟨hnonzero, hsame⟩ | ⟨hnonzero, hsame⟩)
    · rcases hchaddr with hkept | hzero
      · exact hothers j hj hne (.inl ⟨hnonzero, hkept.symm.trans hsame⟩)
      · exact hnonzero (hsame.symm.trans hzero)
    · exact hothers j hj hne (.inr ⟨hnonzero, hyiaddr.symm.trans hsame⟩)
  · rw [update_of_ne hjk]
    exact hothers j hj hne

end EchoLife.Dhcp
