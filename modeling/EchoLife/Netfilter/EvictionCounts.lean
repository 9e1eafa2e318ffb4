import EchoLife.Netfilter.Eviction

/-!
The reference counts of the connections. A connection in the hash table is counted by its timer,
so that a packet finds none that has been freed, and one leaves the eviction list when it is
freed. The invariant is kept by whatever takes or gives back a reference.
-/

namespace EchoLife.Netfilter.Conntrack

open Buckets Function List Option Run

variable {τ : Type} {n : Nat} {other : Nat} {refs : List (Holder × Nat)}

def refCount (id : Nat) (refs : List (Holder × Nat)) : Nat :=
  refs.countP (fun r => r.2 = id)

/-- The invariant while the connections in `dying` are being destroyed; those in
`outside` may be missing from the list. -/
structure Sound (outside dying : List Nat) (s : State τ n) : Prop where
  ordered : Recency.Ordered s.used s.clock s.safeList
  listed : ∀ id, id ∈ s.safeList ↔ s.flag Conn.safeList id = true
  apart : ∀ id ct, s.conns id = some ct → ct.safeList = false → id ∈ outside
  hashed : ∀ h ∈ entries s.hash, s.flag Conn.timeout h.1 = true
  waiting : ∀ id ct, s.conns id = some ct → ct.confirmed = false → ct.timeout = false
  counted : ∀ id ct, s.conns id = some ct → ct.use = refCount id s.refs + ct.timeout.toNat
  held : ∀ r ∈ s.refs, (s.conns r.2).isSome
  below : ∀ id, (s.conns id).isSome → id < s.next
  masters : ∀ id ct master, s.conns id = some ct → id ∉ dying →
    ct.master = some master → master < id ∧ (Holder.child id, master) ∈ s.refs
  expects : ∀ e ∈ s.expects, (s.conns e.master).isSome ∧ e.master ∉ dying
  dying : ∀ id ∈ dying, ∃ ct, s.conns id = some ct ∧ ct.use = 0

theorem start_sound (max : Nat) : Sound [] [] (start max : State τ n) where
  ordered := .nil _ _
  listed id := by simp [start, State.flag]
  apart id ct h := by cases h
  hashed h hmem := by
    obtain ⟨slot, hslot⟩ := mem_entries.mp hmem
    cases hslot
  waiting id ct h := by cases h
  counted id ct h := by cases h
  held r hr := by cases hr
  below id h := by cases h
  masters id ct master h := by cases h
  expects e he := by cases he
  dying id hid := by cases hid

/-! ### Connections that change -/

variable {s : State τ n} {id fuel : Nat} {f : Conn τ → Conn τ} {ct : Conn τ} {outside : List Nat}
  {holder : Holder}

theorem modify_self (s : State τ n) (id : Nat) (f : Conn τ → Conn τ) :
    (s.modify id f).conns id = (s.conns id).map f :=
  update_self ..

theorem modify_other (s : State τ n) (f : Conn τ → Conn τ) (hne : other ≠ id) :
    (s.modify id f).conns other = s.conns other :=
  update_of_ne hne ..

theorem modify_eq_some (h : (s.modify id f).conns other = some ct) :
    ∃ was, s.conns other = some was ∧ ct = if other = id then f was else was := by
  by_cases hne : other = id
  · subst hne
    rw [modify_self] at h
    obtain ⟨was, hwas, rfl⟩ := map_eq_some_iff.mp h
    exact ⟨was, hwas, (if_pos rfl).symm⟩
  · rw [modify_other s f hne] at h
    exact ⟨ct, h, (if_neg hne).symm⟩

theorem isSome_modify (s : State τ n) (id other : Nat) (f : Conn τ → Conn τ) :
    ((s.modify id f).conns other).isSome = (s.conns other).isSome := by
  by_cases hne : other = id
  · rw [hne, modify_self, isSome_map]
  · rw [modify_other s f hne]

theorem flag_modify_other (p : Conn τ → Bool) (hne : other ≠ id) :
    (s.modify id f).flag p other = s.flag p other := by
  rw [State.flag, modify_other s f hne, State.flag]

section

variable {p : Conn τ → Bool}

theorem flag_modify (hkeep : ∀ ct, p (f ct) = p ct) (other : Nat) :
    (s.modify id f).flag p other = s.flag p other := by
  by_cases hne : other = id
  · subst hne
    rw [State.flag, modify_self, State.flag]
    cases s.conns other with
    | none => rfl
    | some ct => exact hkeep ct
  · exact flag_modify_other p hne

theorem flag_of_some (h : s.conns id = some ct) : s.flag p id = p ct := by
  rw [State.flag, h]
  rfl

theorem flag_modify_self (h : s.conns id = some ct) : (s.modify id f).flag p id = p (f ct) := by
  apply flag_of_some
  rw [modify_self, h]
  rfl

theorem isSome_of_flag (h : s.flag p id = true) : (s.conns id).isSome := by
  cases hct : s.conns id with
  | none =>
    rw [State.flag, hct] at h
    cases h
  | some ct => rfl

end

variable {dying : List Nat}

/-- A connection changes together with the references to it, and stays in the list. -/
theorem Sound.recount (h : Sound outside dying s) (hlink : ∀ ct, (f ct).safeList = ct.safeList)
    (hmaster : ∀ ct master, (f ct).master = some master → ct.master = some master ∨
      master < id ∧ (Holder.child id, master) ∈ refs)
    (htimeout : Hashed id s → ∀ ct, ct.timeout = true → (f ct).timeout = true)
    (hwaiting : ∀ ct, (ct.confirmed = false → ct.timeout = false) →
      (f ct).confirmed = false → (f ct).timeout = false)
    (hcount : ∀ ct, s.conns id = some ct → (f ct).use = refCount id refs + (f ct).timeout.toNat)
    (hothers : ∀ other, other ≠ id → refCount other refs = refCount other s.refs)
    (hheld : ∀ r ∈ refs, r ∈ s.refs ∨ (s.conns r.2).isSome)
    (hchild : ∀ c master, (Holder.child c, master) ∈ s.refs → c ∉ dying →
      (Holder.child c, master) ∈ refs) (hdying : id ∉ dying) :
    Sound outside dying { s.modify id f with refs := refs } := by
  refine ⟨h.ordered, ?_, ?_, ?_, ?_, ?_, ?_, ?_, ?_, ?_, ?_⟩
  · intro other
    have hflag : (s.modify id f).flag Conn.safeList other = s.flag Conn.safeList other :=
      flag_modify hlink other
    exact (h.listed other).trans (by rw [← hflag]; rfl)
  · intro other ct hct hnot
    obtain ⟨was, hwas, rfl⟩ := modify_eq_some hct
    apply h.apart other was hwas
    split at hnot
    · rw [← hlink was, hnot]
    · exact hnot
  · intro e he
    have hwas := h.hashed e he
    by_cases hne : e.1 = id
    · obtain ⟨ct, hct⟩ := isSome_iff_exists.mp (isSome_of_flag hwas)
      rw [flag_of_some hct] at hwas
      have hnow : (s.modify id f).conns e.1 = some (f ct) := by
        rw [hne, modify_self, ← hne, hct]
        rfl
      have hin : Hashed id s := ⟨e.2, hne ▸ he⟩
      exact (flag_of_some hnow).trans (htimeout hin ct hwas)
    · exact (flag_modify_other _ hne).trans hwas
  · intro other ct hct
    obtain ⟨was, hwas, rfl⟩ := modify_eq_some hct
    split
    · exact hwaiting was (h.waiting other was hwas)
    · exact h.waiting other was hwas
  · intro other ct hct
    obtain ⟨was, hwas, rfl⟩ := modify_eq_some hct
    by_cases hne : other = id
    · subst hne
      rw [if_pos rfl]
      exact hcount was hwas
    · rw [if_neg hne]
      exact (h.counted other was hwas).trans (by rw [hothers other hne])
  · intro r hr
    have hsome : (s.conns r.2).isSome := (hheld r hr).elim (h.held r) (fun hlive => hlive)
    exact (isSome_modify s id r.2 f).trans hsome
  · intro other hsome
    exact h.below other ((isSome_modify s id other f).symm.trans hsome)
  · intro other ct master hct hnot hof
    obtain ⟨was, hwas, rfl⟩ := modify_eq_some hct
    have hkept (hbefore : was.master = some master) :
        master < other ∧ (Holder.child other, master) ∈ refs := by
      obtain ⟨hlt, hmem⟩ := h.masters other was master hwas hnot hbefore
      exact ⟨hlt, hchild other master hmem hnot⟩
    split at hof
    next hid =>
      subst hid
      exact (hmaster was master hof).elim hkept (fun hnew => hnew)
    · exact hkept hof
  · intro e he
    obtain ⟨hsome, hnot⟩ := h.expects e he
    exact ⟨(isSome_modify s id e.master f).trans hsome, hnot⟩
  · intro other hmem
    obtain ⟨ct, hct, huse⟩ := h.dying other hmem
    have hne : other ≠ id := ne_of_mem_of_not_mem hmem hdying
    exact ⟨ct, (modify_other s f hne).trans hct, huse⟩

/-- A change that touches no counted field keeps the state sound. -/
theorem Sound.modify (h : Sound outside [] s) (id : Nat)
    (hlink : ∀ ct, (f ct).safeList = ct.safeList) (hmaster : ∀ ct, (f ct).master = ct.master)
    (hconfirmed : ∀ ct, (f ct).confirmed = ct.confirmed)
    (htimeout : ∀ ct, (f ct).timeout = ct.timeout) (huse : ∀ ct, (f ct).use = ct.use) :
    Sound outside [] (s.modify id f) := by
  apply h.recount hlink
  · exact fun ct master hof => .inl ((hmaster ct).symm.trans hof)
  · exact fun _ ct ht => (htimeout ct).trans ht
  · intro ct hwas hnow
    rw [htimeout]
    exact hwas ((hconfirmed ct).symm.trans hnow)
  · intro ct hct
    rw [huse, htimeout]
    exact h.counted id ct hct
  · exact fun _ _ => rfl
  · exact fun _ hr => .inl hr
  · exact fun _ _ hr _ => hr
  · exact not_mem_nil

theorem refCount_cons_self (holder : Holder) (id : Nat) (refs : List (Holder × Nat)) :
    refCount id ((holder, id) :: refs) = refCount id refs + 1 := by
  simp [refCount]

theorem refCount_cons_other (holder : Holder) (refs : List (Holder × Nat))
    (hne : other ≠ id) : refCount other ((holder, id) :: refs) = refCount other refs := by
  simp [refCount, hne.symm]

theorem refCount_erase_self (hmem : (holder, id) ∈ refs) :
    refCount id (refs.erase (holder, id)) + 1 = refCount id refs := by
  have hperm := perm_cons_erase hmem
  rw [refCount, refCount, hperm.countP_eq]
  simp

theorem refCount_erase_other (holder : Holder) (refs : List (Holder × Nat))
    (hne : other ≠ id) : refCount other (refs.erase (holder, id)) = refCount other refs := by
  by_cases hmem : (holder, id) ∈ refs
  · have hperm := perm_cons_erase hmem
    rw [refCount, refCount, hperm.countP_eq]
    simp [hne.symm]
  · rw [erase_of_not_mem hmem]

theorem refCount_pos (hmem : (holder, id) ∈ refs) : 0 < refCount id refs :=
  countP_pos_iff.mpr ⟨(holder, id), hmem, by simp⟩

section

variable (h : Sound outside dying s)
include h

theorem Sound.not_dying (hmem : (holder, id) ∈ s.refs) : id ∉ dying := by
  intro hid
  obtain ⟨ct, hct, huse⟩ := h.dying id hid
  have hcount := h.counted id ct hct
  have hpos := refCount_pos hmem
  omega

/-- A reference to a connection that is there is counted. -/
theorem Sound.hold (hlive : (s.conns id).isSome) (hdying : id ∉ dying) (holder : Holder) :
    Sound outside dying (hold holder id s) := by
  apply h.recount
  · exact fun _ => rfl
  · exact fun _ _ hof => .inl hof
  · exact fun _ _ ht => ht
  · exact fun _ hwas hnow => hwas hnow
  · intro ct hct
    have hcount := h.counted id ct hct
    rw [refCount_cons_self]
    show ct.use + 1 = refCount id s.refs + 1 + ct.timeout.toNat
    omega
  · exact fun other hne => refCount_cons_other holder s.refs hne
  · exact forall_mem_cons.mpr ⟨.inr hlive, fun _ hrest => .inl hrest⟩
  · exact fun c master hr _ => mem_cons_of_mem _ hr
  · exact hdying

/-- A connection gives back the reference to its master only when it is destroyed. -/
theorem Sound.release (hmem : (holder, id) ∈ s.refs) (hchild : ∀ c, holder = .child c → c ∈ dying) :
    Sound outside dying (release holder id s) := by
  apply h.recount
  · exact fun _ => rfl
  · exact fun _ _ hof => .inl hof
  · exact fun _ _ ht => ht
  · exact fun _ hwas hnow => hwas hnow
  · intro ct hct
    have hcount := h.counted id ct hct
    have herase := refCount_erase_self hmem
    show ct.use - 1 = refCount id (s.refs.erase (holder, id)) + ct.timeout.toNat
    omega
  · exact fun other hne => refCount_erase_other holder s.refs hne
  · exact fun r hr => .inl (mem_of_mem_erase hr)
  · intro c master hr hnot
    apply (mem_erase_of_ne _).mpr hr
    intro heq
    exact hnot (hchild c (congrArg Prod.fst heq).symm)
  · exact h.not_dying hmem

/-! ### The last reference -/

/-- Chains and expectations may lose entries. -/
theorem Sound.forget {hash : Fin n → List (Nat × Dir)} {expects : List (Expect τ)}
    (hhash : ∀ e ∈ entries hash, e ∈ entries s.hash) (hexpects : ∀ e ∈ expects, e ∈ s.expects) :
    Sound outside dying { s with hash := hash, expects := expects } :=
  { h with
    hashed := fun e he => h.hashed e (hhash e he)
    expects := fun e he => h.expects e (hexpects e he) }

theorem Sound.removeExpectations (id : Nat) : Sound outside dying (nfCtRemoveExpectations id s) :=
  h.forget (fun _ he => he) (fun _ he => mem_of_mem_filter he)

/-- A connection without references and expectations may be destroyed. -/
theorem Sound.destroy (hct : s.conns id = some ct)
    (huse : ct.use = 0) (hexpects : ∀ e ∈ s.expects, e.master ≠ id) :
    Sound outside (id :: dying) s where
  ordered := h.ordered
  listed := h.listed
  apart := h.apart
  hashed := h.hashed
  waiting := h.waiting
  counted := h.counted
  held := h.held
  below := h.below
  masters other was master hwas hnot :=
    h.masters other was master hwas (fun hmem => hnot (mem_cons_of_mem _ hmem))
  expects e he := by
    obtain ⟨hsome, hnot⟩ := h.expects e he
    refine ⟨hsome, ?_⟩
    rw [mem_cons, not_or]
    exact ⟨hexpects e he, hnot⟩
  dying := forall_mem_cons.mpr ⟨⟨ct, hct, huse⟩, h.dying⟩

end

theorem free_self (s : State τ n) (id : Nat) : (nfConntrackFree id s).conns id = none :=
  update_self ..

theorem free_other (s : State τ n) (hne : other ≠ id) :
    (nfConntrackFree id s).conns other = s.conns other :=
  update_of_ne hne ..

theorem free_eq_some (h : (nfConntrackFree id s).conns other = some ct) :
    other ≠ id ∧ s.conns other = some ct := by
  have hne : other ≠ id := by
    rintro rfl
    rw [free_self] at h
    cases h
  exact ⟨hne, (free_other s hne).symm.trans h⟩

private theorem mem_safeList_free (h : Sound outside dying s) (other : Nat) :
    other ∈ (nfConntrackFree id s).safeList ↔ other ≠ id ∧ other ∈ s.safeList := by
  show other ∈ (if s.flag Conn.safeList id then s.safeList.erase id else s.safeList) ↔ _
  split
  · exact h.ordered.nodup.mem_erase_iff
  next hnot =>
    refine ⟨?_, And.right⟩
    intro hmem
    refine ⟨?_, hmem⟩
    rintro rfl
    exact hnot ((h.listed other).mp hmem)

/-- Freeing a connection takes it out of the list if it is there. -/
theorem Sound.free (h : Sound outside (id :: dying) s) (hdying : id ∉ dying) :
    Sound outside dying (nfConntrackFree id s) := by
  obtain ⟨ct, hct, huse⟩ := h.dying id mem_cons_self
  have hcount := h.counted id ct hct
  have hnoref : ∀ r ∈ s.refs, r.2 ≠ id := by
    intro r hr heq
    have hmem : (r.1, id) ∈ s.refs := by
      rw [← heq]
      exact hr
    have hpos := refCount_pos hmem
    omega
  have htimeout : ct.timeout.toNat = 0 := by omega
  have hunhashed : ∀ e ∈ entries s.hash, e.1 ≠ id := by
    intro e he heq
    have hpending := h.hashed e he
    rw [heq, flag_of_some hct] at hpending
    rw [hpending] at htimeout
    cases htimeout
  refine ⟨?_, ?_, ?_, ?_, ?_, ?_, ?_, ?_, ?_, ?_, ?_⟩
  · show Recency.Ordered s.used s.clock
      (if s.flag Conn.safeList id then s.safeList.erase id else s.safeList)
    split
    · exact h.ordered.erase id
    · exact h.ordered
  · intro other
    rw [mem_safeList_free h]
    by_cases hne : other = id
    · rw [hne, State.flag, free_self]
      simp
    · rw [State.flag, free_other s hne]
      exact (and_iff_right hne).trans (h.listed other)
  · intro other was hwas
    exact h.apart other was (free_eq_some hwas).2
  · intro e he
    rw [State.flag, free_other s (hunhashed e he)]
    exact h.hashed e he
  · intro other was hwas
    exact h.waiting other was (free_eq_some hwas).2
  · intro other was hwas
    exact h.counted other was (free_eq_some hwas).2
  · intro r hr
    rw [free_other s (hnoref r hr)]
    exact h.held r hr
  · intro other hsome
    obtain ⟨was, hwas⟩ := isSome_iff_exists.mp hsome
    exact h.below other (isSome_iff_exists.mpr ⟨was, (free_eq_some hwas).2⟩)
  · intro other was master hwas hnot
    obtain ⟨hne, hbefore⟩ := free_eq_some hwas
    apply h.masters other was master hbefore
    rw [mem_cons, not_or]
    exact ⟨hne, hnot⟩
  · intro e he
    obtain ⟨hsome, hnot⟩ := h.expects e he
    rw [mem_cons, not_or] at hnot
    rw [free_other s hnot.1]
    exact ⟨hsome, hnot.2⟩
  · intro other hmem
    rw [free_other s (ne_of_mem_of_not_mem hmem hdying)]
    exact h.dying other (mem_cons_of_mem _ hmem)

/-- The invariant along the chain of masters: the connection that gives back its master
is being destroyed meanwhile. -/
theorem Sound.putLoop (h : Sound outside dying s) (hfuel : id < fuel)
    (hmem : (holder, id) ∈ s.refs) (hchild : ∀ c, holder = .child c → c ∈ dying) :
    Sound outside dying (putLoop fuel holder id s) := by
  induction fuel generalizing holder id dying s with
  | zero => exact absurd hfuel (Nat.not_lt_zero id)
  | succ fuel ih =>
    have hreleased := h.release hmem hchild
    have hdying := h.not_dying hmem
    rw [Conntrack.putLoop]
    cases hct : (Conntrack.release holder id s).conns id with
    | none => exact hreleased
    | some ct =>
      simp only
      split
      next huse =>
        have hdestroyed : Sound outside (id :: dying)
            (nfCtRemoveExpectations id (Conntrack.release holder id s)) := by
          apply (hreleased.removeExpectations id).destroy hct huse
          intro e he
          exact of_decide_eq_true (mem_filter.mp he).2
        apply Sound.free _ hdying
        cases hmaster : ct.master with
        | none => exact hdestroyed
        | some master =>
          obtain ⟨hlt, href⟩ := hreleased.masters id ct master hct hdying hmaster
          apply ih hdestroyed (by omega) href
          rintro c ⟨⟩
          exact mem_cons_self
      · exact hreleased

theorem Sound.put (h : Sound outside [] s) (hmem : (holder, id) ∈ s.refs)
    (hholder : ∀ c, holder ≠ .child c) : Sound outside [] (nfCtPut holder id s) :=
  h.putLoop (Nat.lt_succ_self id) hmem (fun c heq => absurd heq (hholder c))

private theorem mem_refs_putLoop {r : Holder × Nat} (hr : r ∈ s.refs) (hne : r ≠ (holder, id))
    (hholder : ∀ c, r.1 ≠ .child c) : r ∈ (putLoop fuel holder id s).refs := by
  induction fuel generalizing holder id s with
  | zero => exact hr
  | succ fuel ih =>
    have hkept : r ∈ (release holder id s).refs :=
      (mem_erase_of_ne hne).mpr hr
    rw [putLoop]
    cases hct : (release holder id s).conns id with
    | none => exact hkept
    | some ct =>
      simp only
      split
      · cases ct.master with
        | none => exact hkept
        | some master =>
          have hother : r ≠ (.child id, master) := by
            rintro rfl
            exact hholder id rfl
          exact ih (s := nfCtRemoveExpectations id (release holder id s)) hkept hother
      · exact hkept

theorem putLoop_eq_some {other : Nat} (h : (putLoop fuel holder id s).conns other = some ct) :
    ∃ was, s.conns other = some was ∧ ct.safeList = was.safeList := by
  induction fuel generalizing holder id s with
  | zero => exact ⟨ct, h, rfl⟩
  | succ fuel ih =>
    have hreleased (now : Conn τ)
        (hnow : (release holder id s).conns other = some now) :
        ∃ was, s.conns other = some was ∧ now.safeList = was.safeList := by
      obtain ⟨was, hwas, rfl⟩ := modify_eq_some hnow
      exact ⟨was, hwas, by split <;> rfl⟩
    rw [putLoop] at h
    cases hct : (release holder id s).conns id with
    | none =>
      rw [hct] at h
      exact hreleased ct h
    | some last =>
      rw [hct] at h
      simp only at h
      split at h
      · have hrest := (free_eq_some h).2
        cases hmaster : last.master with
        | none =>
          rw [hmaster] at hrest
          exact hreleased ct hrest
        | some master =>
          rw [hmaster] at hrest
          obtain ⟨now, hnow, hsame⟩ := ih hrest
          obtain ⟨was, hwas, hbefore⟩ := hreleased now hnow
          exact ⟨was, hwas, hsame.trans hbefore⟩
      · exact hreleased ct h

def State.history (s : State τ n) : List Nat × List Nat :=
  (s.strays, s.misjudged)

theorem putLoop_history (fuel : Nat) (holder : Holder) (id : Nat) (s : State τ n) :
    (putLoop fuel holder id s).history = s.history := by
  induction fuel generalizing holder id s with
  | zero => rfl
  | succ fuel ih =>
    rw [putLoop]
    cases (release holder id s).conns id with
    | none => rfl
    | some ct =>
      simp only
      split
      · cases ct.master with
        | none => rfl
        | some master => exact ih (.child id) master _
      · rfl

/-! ### Timers -/

/-- A connection leaves its two chains. -/
theorem Sound.cleanFromLists (h : Sound outside [] s) (id : Nat) :
    Sound outside [] (cleanFromLists id s) := by
  apply h.forget
  · intro e he
    exact (mem_entries_unlink.mp (mem_entries_unlink.mp he).2).2
  · exact fun _ he => mem_of_mem_filter he

private theorem not_hashed_cleanFromLists (id : Nat) (s : State τ n) :
    ¬Hashed id (cleanFromLists id s) := by
  rintro ⟨dir, hmem⟩
  obtain ⟨hreply, hrest⟩ := mem_entries_unlink.mp hmem
  obtain ⟨horiginal, -⟩ := mem_entries_unlink.mp hrest
  cases dir with
  | original => exact horiginal rfl
  | reply => exact hreply rfl

section

variable (h : Sound outside [] s) (hpending : s.flag Conn.timeout id = true)
include h hpending

theorem Sound.delTimer (hhashed : ¬Hashed id s) : Sound outside [] (delTimer id s) := by
  have hlive := isSome_of_flag hpending
  apply h.recount
  · exact fun _ => rfl
  · exact fun _ _ hof => .inl hof
  · exact fun hin => absurd hin hhashed
  · exact fun _ _ _ => rfl
  · intro ct hct
    have hcount := h.counted id ct hct
    rw [flag_of_some hct] at hpending
    rw [hpending] at hcount
    rw [refCount_cons_self]
    exact hcount
  · exact fun other hne => refCount_cons_other .timer s.refs hne
  · exact forall_mem_cons.mpr ⟨.inr hlive, fun _ hrest => .inl hrest⟩
  · exact fun c master hr _ => mem_cons_of_mem _ hr
  · exact not_mem_nil

/-- A connection dies when its timer is pending: it is out of the hash table before the
reference of the timer is given back. -/
theorem Sound.deathByTimeout : Sound outside [] (deathByTimeout id (Conntrack.delTimer id s)) := by
  have hcleaned : Sound outside [] (Conntrack.cleanFromLists id (Conntrack.delTimer id s)) :=
    (h.cleanFromLists id).delTimer hpending (not_hashed_cleanFromLists id s)
  apply hcleaned.put mem_cons_self
  nofun

end

theorem mem_refs_deathByTimeout (id : Nat) (hr : (.skb, other) ∈ s.refs) :
    (.skb, other) ∈ (deathByTimeout id (delTimer id s)).refs := by
  apply mem_refs_putLoop (mem_cons_of_mem _ hr)
  · nofun
  · nofun

theorem deathByTimeout_eq_some (h : (deathByTimeout id (delTimer id s)).conns other = some ct) :
    ∃ was, s.conns other = some was ∧ ct.safeList = was.safeList := by
  obtain ⟨now, hnow, hsame⟩ := putLoop_eq_some h
  obtain ⟨was, hwas, rfl⟩ := modify_eq_some hnow
  refine ⟨was, hwas, hsame.trans ?_⟩
  split <;> rfl

theorem deathByTimeout_history (id : Nat) (s : State τ n) :
    (deathByTimeout id (delTimer id s)).history = s.history :=
  putLoop_history ..

/-- Killing a victim: its timer is deleted and its reference given back. -/
theorem Sound.drop (h : Sound outside [] s) (hlive : (s.conns id).isSome) :
    Sound outside [] (drop id s).2 := by
  have hheld := h.hold hlive not_mem_nil .skb
  have hmem : (.skb, id) ∈ (Conntrack.hold .skb id s).refs := mem_cons_self
  rw [Conntrack.drop]
  split
  next hpending =>
    apply (hheld.deathByTimeout hpending).put (mem_refs_deathByTimeout id hmem)
    nofun
  · apply hheld.put hmem
    nofun

theorem drop_history (id : Nat) (s : State τ n) : (drop id s).2.history = s.history := by
  rw [drop]
  split
  · exact (putLoop_history ..).trans (deathByTimeout_history id _)
  · exact putLoop_history ..

theorem drop_fst (hpending : s.flag Conn.timeout id = true) : (drop id s).1 = true := by
  have hheld : (hold .skb id s).flag Conn.timeout id = s.flag Conn.timeout id :=
    flag_modify (f := fun ct => { ct with use := ct.use + 1 }) (fun _ => rfl) id
  rw [drop, if_pos (hheld.trans hpending)]

end EchoLife.Netfilter.Conntrack
