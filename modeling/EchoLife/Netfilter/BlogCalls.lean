import EchoLife.Netfilter.BlogPool

/-!
Calls on flow logs that keep out of each other's way. When no two calls work on one buffer at a
time, a Blog is stored only into a buffer without one, and no call that takes a Blog comes between
the test and the removal of another, every step fits, whatever the interleaving.
-/

namespace EchoLife.Netfilter.Blog

open Buckets Function Inventory List Run

variable {m p : Nat} {fill : Bool}

def Call.uses : Call m → List (Fin m)
  | .idle | .push _ => []
  | .test skb _ | .construct skb _ | .pop skb _ | .assign skb _ _ | .fill skb _ => [skb]
  | .load skb (.xfer new) | .unlink skb _ (.xfer new) => [skb, new]
  | .load skb _ | .unlink skb _ _ => [skb]

def Call.takes : Call m → Prop
  | .test .. | .construct .. | .pop .. => True
  | _ => False

instance : (c : Call m) → Decidable c.takes
  | .test .. | .construct .. | .pop .. => .isTrue trivial
  | .idle | .assign .. | .fill .. | .load .. | .unlink .. | .push _ => .isFalse id

def Unused (skb : Fin m) (s : State m p) : Prop :=
  ∀ i, skb ∉ (s.calls i).uses

instance (skb : Fin m) (s : State m p) : Decidable (Unused skb s) :=
  inferInstanceAs (Decidable (∀ i, skb ∉ (s.calls i).uses))

/-- A call that is to store a Blog into a buffer finds none there, and one that takes a Blog does
not come between another one and the Blog it is to take. Who puts a Blog has it in hand. -/
def Suits : Request m → State m p → Prop
  | .skb skb, s | .clone skb (some _), s => s.blogP skb = none ∧ ∀ j, ¬(s.calls j).takes
  | .xfer skb prev, s => s.blogP skb = none ∨ skb = prev
  | .put blog, s => blog ∈ s.hands
  | .clone _ none, _ | .free _, _ | .null _, _ => True

instance (r : Request m) (s : State m p) : Decidable (Suits r s) :=
  match r with
  | .skb skb | .clone skb (some _) =>
    inferInstanceAs (Decidable (s.blogP skb = none ∧ ∀ j, ¬(s.calls j).takes))
  | .xfer skb prev => inferInstanceAs (Decidable (s.blogP skb = none ∨ skb = prev))
  | .put blog => inferInstanceAs (Decidable (blog ∈ s.hands))
  | .clone _ none | .free _ | .null _ => .isTrue trivial

/-- A call begins on buffers that no other call works on, and who links a Blog has it in
hand. -/
def Careful : Event m p → State m p → Prop
  | .begin i r, s => s.calls i = .idle →
      (∀ skb ∈ (enter r).uses, Unused skb s) ∧ Suits r s
  | .step _ _, _ => True
  | .link skb blog, s => Unused skb s ∧ s.blogP skb = none ∧ blog ∈ s.hands

instance (e : Event m p) (s : State m p) : Decidable (Careful e s) :=
  match e with
  | .begin i r => inferInstanceAs (Decidable (s.calls i = .idle →
      (∀ skb ∈ (enter r).uses, Unused skb s) ∧ Suits r s))
  | .step _ _ => .isTrue trivial
  | .link skb blog =>
    inferInstanceAs (Decidable (Unused skb s ∧ s.blogP skb = none ∧ blog ∈ s.hands))

def Ready (s : State m p) : Call m → Prop
  | .idle | .push _ | .load _ .free | .load _ .null => True
  | .test skb _ | .construct skb _ | .assign skb _ _ => s.blogP skb = none
  | .pop skb _ => s.blogP skb = none ∧ s.blogList ≠ []
  | .fill skb blog => s.blogP skb = some blog
  | .load skb (.xfer new) => s.blogP new = none ∨ new = skb
  | .unlink skb blog goal =>
    s.blogP skb = blog ∧ ∀ new, goal = .xfer new → s.blogP new = none ∨ new = skb

structure Orderly (s : State m p) : Prop where
  conserved : Conserved s
  apart : ∀ i j skb, skb ∈ (s.calls i).uses → skb ∈ (s.calls j).uses → i = j
  single : ∀ i j, (s.calls i).takes → (s.calls j).takes → i = j
  ready : ∀ i, Ready s (s.calls i)

variable {blog : Option Nat}

section Orderly
variable {s t : State m p} {i : Fin p} {skb : Fin m} {c : Call m}

theorem Ready.frame (h : Ready s c) (hblog : ∀ skb ∈ c.uses, t.blogP skb = s.blogP skb)
    (hlist : c.takes → s.blogList ≠ [] → t.blogList ≠ []) : Ready t c := by
  cases c with
  | idle => trivial
  | push blog => trivial
  | test skb fill => exact (hblog skb mem_cons_self).trans h
  | construct skb fill => exact (hblog skb mem_cons_self).trans h
  | assign skb blog fill => exact (hblog skb mem_cons_self).trans h
  | fill skb blog => exact (hblog skb mem_cons_self).trans h
  | pop skb fill => exact ⟨(hblog skb mem_cons_self).trans h.1, hlist trivial h.2⟩
  | load skb goal =>
    cases goal with
    | free => trivial
    | null => trivial
    | xfer new =>
      refine Or.imp_left (fun hnone => ?_) h
      exact (hblog new (mem_cons_of_mem _ mem_cons_self)).trans hnone
  | unlink skb blog goal =>
    cases goal with
    | free =>
      refine ⟨(hblog skb mem_cons_self).trans h.1, ?_⟩
      nofun
    | null =>
      refine ⟨(hblog skb mem_cons_self).trans h.1, ?_⟩
      nofun
    | xfer new =>
      refine ⟨(hblog skb mem_cons_self).trans h.1, ?_⟩
      intro other heq
      cases heq
      refine (h.2 new rfl).imp_left (fun hnone => ?_)
      exact (hblog new (mem_cons_of_mem _ mem_cons_self)).trans hnone

theorem mem_attached_iff {blog : Nat} : blog ∈ attached s ↔ ∃ skb, s.blogP skb = some blog := by
  rw [attached, mem_entries]
  simp only [comp_apply, Option.mem_toList]

theorem Conserved.not_free (h : Conserved s) {blog : Nat} (hblog : s.blogP skb = some blog) :
    blog ∉ s.blogList := by
  intro hfree
  have hnodup := h.complete.nodup
  have hshelf := (nodup_append.mp hnodup).1
  have hattached : blog ∈ attached s ++ s.hands :=
    mem_append_left _ (mem_attached_iff.mpr ⟨skb, hblog⟩)
  exact (nodup_append.mp hshelf).2.2 blog hfree blog hattached rfl

section

variable (h : Orderly s)
include h

theorem Orderly.fits (i : Fin p) (room : Bool) : Fits (.step i room : Event m p) s := by
  have hready := h.ready i
  rw [Fits]
  cases hcall : s.calls i with
  | pop skb fill =>
    rw [hcall] at hready
    exact hready.2
  | assign skb blog fill =>
    rw [hcall] at hready
    exact hready
  | fill skb blog =>
    rw [hcall] at hready
    exact h.conserved.not_free hready
  | unlink skb blog goal =>
    rw [hcall] at hready
    exact hready.1
  | _ => trivial

theorem Orderly.setCall (hconserved : Conserved (setCall i c t))
    (hcalls : t.calls = s.calls) (huses : ∀ skb ∈ c.uses, skb ∈ (s.calls i).uses ∨ Unused skb s)
    (htakes : c.takes → (s.calls i).takes ∨ ∀ j, ¬(s.calls j).takes) (hready : Ready t c)
    (hblog : ∀ j, j ≠ i → ∀ skb ∈ (s.calls j).uses, t.blogP skb = s.blogP skb)
    (hlist : ∀ j, j ≠ i → (s.calls j).takes → s.blogList ≠ [] → t.blogList ≠ []) :
    Orderly (setCall i c t) := by
  have hself : (Blog.setCall i c t).calls i = c := update_self ..
  have hother (j : Fin p) (hne : j ≠ i) : (Blog.setCall i c t).calls j = s.calls j :=
    (update_of_ne hne ..).trans (congrFun hcalls j)
  -- What the context now works on, no other context works on.
  have hfresh (j : Fin p) (hne : j ≠ i) (skb : Fin m) (hnow : skb ∈ c.uses)
      (hthere : skb ∈ (s.calls j).uses) : False := by
    rcases huses skb hnow with hbefore | hunused
    · exact hne (h.apart j i skb hthere hbefore)
    · exact hunused j hthere
  have halone (j : Fin p) (hne : j ≠ i) (hnow : c.takes) (hthere : (s.calls j).takes) : False := by
    rcases htakes hnow with hbefore | hnone
    · exact hne (h.single j i hthere hbefore)
    · exact hnone j hthere
  refine ⟨hconserved, ?_, ?_, ?_⟩
  · intro j k skb hj hk
    by_cases hji : j = i
    · by_cases hki : k = i
      · rw [hji, hki]
      rw [hji, hself] at hj
      rw [hother k hki] at hk
      exact (hfresh k hki skb hj hk).elim
    · rw [hother j hji] at hj
      by_cases hki : k = i
      · rw [hki, hself] at hk
        exact (hfresh j hji skb hk hj).elim
      · rw [hother k hki] at hk
        exact h.apart j k skb hj hk
  · intro j k hj hk
    by_cases hji : j = i
    · by_cases hki : k = i
      · rw [hji, hki]
      rw [hji, hself] at hj
      rw [hother k hki] at hk
      exact (halone k hki hj hk).elim
    · rw [hother j hji] at hj
      by_cases hki : k = i
      · rw [hki, hself] at hk
        exact (halone j hji hk hj).elim
      · rw [hother k hki] at hk
        exact h.single j k hj hk
  · intro j
    by_cases hji : j = i
    · rw [hji, hself]
      exact hready.frame (fun _ _ => rfl) (fun _ hlist => hlist)
    · rw [hother j hji]
      exact (h.ready j).frame (hblog j hji) (hlist j hji)

theorem Orderly.begin {r : Request m} (hcareful : Careful (.begin i r) s) :
    Orderly (step (.begin i r) s) := by
  by_cases hidle : s.calls i = .idle
  · obtain ⟨hunused, hcase⟩ := hcareful hidle
    have hgo {t : State m p} (hstep : step (.begin i r) s = Blog.setCall i (enter r) t)
        (hcalls : t.calls = s.calls) (hblogP : t.blogP = s.blogP)
        (hlist : t.blogList = s.blogList) (hfits : Fits (.begin i r) s)
        (htakes : (enter r).takes → ∀ j, ¬(s.calls j).takes) (hready : Ready s (enter r)) :
        Orderly (step (.begin i r) s) := by
      have hconserved := (conserved_step_iff h.conserved (.begin i r)).mpr hfits
      rw [hstep] at hconserved ⊢
      apply h.setCall hconserved hcalls
      · exact fun skb hskb => .inr (hunused skb hskb)
      · exact fun htaking => .inr (htakes htaking)
      · exact hready.frame (fun skb _ => congrFun hblogP skb) (fun _ hne => hlist ▸ hne)
      · exact fun j _ skb _ => congrFun hblogP skb
      · exact fun j _ _ hne => hlist ▸ hne
    cases r with
    | skb skb =>
      exact hgo (t := s) (if_pos hidle) rfl rfl rfl trivial (fun _ => hcase.2) hcase.1
    | clone skb prev =>
      cases prev with
      | none =>
        exact hgo (t := s) (if_pos hidle) rfl rfl rfl trivial (fun hfalse => hfalse.elim) trivial
      | some prev =>
        exact hgo (t := s) (if_pos hidle) rfl rfl rfl trivial (fun _ => hcase.2) hcase.1
    | xfer skb prev =>
      exact hgo (t := s) (if_pos hidle) rfl rfl rfl trivial (fun hfalse => hfalse.elim) hcase
    | free skb =>
      exact hgo (t := s) (if_pos hidle) rfl rfl rfl trivial (fun hfalse => hfalse.elim) trivial
    | null skb =>
      exact hgo (t := s) (if_pos hidle) rfl rfl rfl trivial (fun hfalse => hfalse.elim) trivial
    | put blog =>
      exact hgo (t := give blog s) (if_pos hidle) rfl rfl rfl (fun _ => hcase)
        (fun hfalse => hfalse.elim) trivial
  · have hstep : step (.begin i r) s = s := if_neg hidle
    rw [hstep]
    exact h

theorem Orderly.link {blog : Nat} (hcareful : Careful (.link skb blog) s) :
    Orderly (step (.link skb blog) s) := by
  obtain ⟨hunused, hnone, hmem⟩ := hcareful
  refine ⟨(conserved_link_iff h.conserved blog).mpr ?_, h.apart, h.single, ?_⟩
  · rw [Fits, if_pos hmem]
    exact hnone
  intro j
  apply (h.ready j).frame
  · intro other hother
    have hne : other ≠ skb := by
      rintro rfl
      exact hunused j hother
    exact update_of_ne hne ..
  · exact fun _ hlist => hlist

end

section Step
variable {room : Bool} {d : Call m}

theorem Orderly.stay (h : Orderly s) (hcall : s.calls i = d) (hexec : exec room s d = (c, t))
    (hcalls : t.calls = s.calls) (hblogP : t.blogP = s.blogP)
    (hlist : s.blogList ≠ [] → t.blogList ≠ []) (huses : ∀ skb ∈ c.uses, skb ∈ d.uses)
    (htakes : c.takes → d.takes) (hready : Ready t c) : Orderly (step (.step i room) s) := by
  subst hcall
  have hconserved := (conserved_step_iff h.conserved (.step i room)).mpr (h.fits i room)
  rw [step_of_exec hexec] at hconserved ⊢
  apply h.setCall hconserved hcalls
  · exact fun skb hskb => .inl (huses skb hskb)
  · exact fun htaking => .inl (htakes htaking)
  · exact hready
  · exact fun j _ skb _ => congrFun hblogP skb
  · exact fun j _ _ hne => hlist hne

section

variable (h : Orderly s) (hcall : s.calls i = d) (hexec : exec room s d = (c, t))
  (hcalls : t.calls = s.calls)
  (hblogP : t.blogP = update s.blogP skb blog) (hlist : t.blogList = s.blogList)
  (hskb : skb ∈ d.uses)
include h hcall hexec hcalls hblogP hlist hskb

theorem Orderly.store (huses : ∀ skb ∈ c.uses, skb ∈ d.uses) (htakes : ¬c.takes)
    (hready : Ready t c) : Orderly (step (.step i room) s) := by
  subst hcall
  have hconserved := (conserved_step_iff h.conserved (.step i room)).mpr (h.fits i room)
  rw [step_of_exec hexec] at hconserved ⊢
  apply h.setCall hconserved hcalls
  · exact fun skb hskb => .inl (huses skb hskb)
  · exact fun htaking => absurd htaking htakes
  · exact hready
  · intro j hne other hother
    have hne' : other ≠ skb := by
      rintro rfl
      exact hne (h.apart j i other hother hskb)
    rw [hblogP]
    exact update_of_ne hne' ..
  · exact fun j _ _ hne => hlist ▸ hne

theorem Orderly.store_last (hlast : c = .idle ∨ ∃ blog, c = .push blog) :
    Orderly (step (.step i room) s) := by
  rcases hlast with rfl | ⟨other, rfl⟩
  · exact h.store hcall hexec hcalls hblogP hlist hskb nofun
      (fun hfalse => hfalse) trivial
  · exact h.store hcall hexec hcalls hblogP hlist hskb nofun
      (fun hfalse => hfalse) trivial

end

section

variable (h : Orderly s)
include h

theorem Orderly.step_test (hcall : s.calls i = .test skb fill) :
    Orderly (step (.step i room) s) := by
  have hready := h.ready i
  rw [hcall] at hready
  by_cases hempty : s.blogList = []
  · have hexec : exec room s (.test skb fill) = (.construct skb fill, s) := by
      rw [exec, if_pos hempty]
    exact h.stay hcall hexec rfl rfl (fun hne => hne) (fun _ hskb => hskb) (fun _ => trivial) hready
  · have hexec : exec room s (.test skb fill) = (.pop skb fill, s) := by
      rw [exec, if_neg hempty]
    exact h.stay hcall hexec rfl rfl (fun hne => hne) (fun _ hskb => hskb) (fun _ => trivial)
      ⟨hready, hempty⟩

theorem Orderly.step_construct
    (hcall : s.calls i = .construct skb fill) : Orderly (step (.step i room) s) := by
  have hready := h.ready i
  rw [hcall] at hready
  cases room with
  | false =>
    have hexec : exec false s (.construct skb fill) = (.assign skb none fill, s) := rfl
    exact h.stay hcall hexec rfl rfl (fun hne => hne) (fun _ hskb => hskb)
      (fun hfalse => hfalse.elim) hready
  | true =>
    have hfilled : (blogConstruct blogExtendSize s).blogList ≠ [] := cons_ne_nil _ _
    have hexec : exec true s (.construct skb fill) =
        (.pop skb fill, blogConstruct blogExtendSize s) := rfl
    exact h.stay hcall hexec rfl rfl (fun _ => hfilled) (fun _ hskb => hskb)
      (fun _ => trivial) ⟨hready, hfilled⟩

theorem Orderly.step_pop (hcall : s.calls i = .pop skb fill) : Orderly (step (.step i room) s) := by
  have hconserved := (conserved_step_iff h.conserved (.step i room)).mpr (h.fits i room)
  have hready := h.ready i
  rw [hcall] at hready
  cases hlist : s.blogList with
  | nil => exact absurd hlist hready.2
  | cons blog rest =>
    have hexec : exec room s (s.calls i)
        = (.assign skb (some blog) fill, { s with blogList := rest }) := by
      simp only [hcall, exec, hlist]
    have htaking : (s.calls i).takes := by
      rw [hcall]
      trivial
    rw [step_of_exec hexec] at hconserved ⊢
    apply h.setCall hconserved rfl
    · intro other hother
      rw [hcall]
      exact .inl hother
    · exact fun hfalse => hfalse.elim
    · exact hready.1
    · exact fun _ _ _ _ => rfl
    · exact fun j hne hthere _ => absurd (h.single j i hthere htaking) hne

theorem Orderly.step_assign
    (hcall : s.calls i = .assign skb blog fill) : Orderly (step (.step i room) s) := by
  cases blog with
  | none =>
    exact h.store_last hcall (c := .idle) (t := setBlog skb none s) rfl rfl rfl rfl
      mem_cons_self (.inl rfl)
  | some blog =>
    have hsame : update s.blogP skb (some blog) skb = some blog :=
      update_self ..
    cases fill with
    | false =>
      exact h.store_last hcall (c := .idle) (t := setBlog skb (some blog) s) rfl rfl rfl
        rfl mem_cons_self (.inl rfl)
    | true =>
      exact h.store hcall (c := .fill skb blog) (t := setBlog skb (some blog) s) rfl rfl
        rfl rfl mem_cons_self (fun _ hskb => hskb) (fun hfalse => hfalse) hsame

theorem Orderly.step_unlink {goal : Goal m}
    (hcall : s.calls i = .unlink skb blog goal) : Orderly (step (.step i room) s) := by
  cases goal with
  | free =>
    cases blog with
    | none =>
      exact h.store_last hcall (c := .idle) (t := setBlog skb none s) rfl rfl rfl rfl
        mem_cons_self (.inl rfl)
    | some blog =>
      exact h.store_last hcall (c := .push blog) (t := setBlog skb none s) rfl rfl rfl rfl
        mem_cons_self (.inr ⟨blog, rfl⟩)
  | null =>
    exact h.store_last hcall (c := .idle)
      (t := { setBlog skb none s with hands := blog.toList ++ s.hands }) rfl rfl rfl rfl
      mem_cons_self (.inl rfl)
  | xfer new =>
    have hready := h.ready i
    rw [hcall] at hready
    have hclear : update s.blogP skb none new = none := by
      rcases hready.2 new rfl with hnone | rfl
      · by_cases hne : new = skb
        · rw [hne, update_self]
        · rw [update_of_ne hne, hnone]
      · exact update_self ..
    exact h.store hcall (c := .assign new blog true) (t := setBlog skb none s) rfl rfl rfl
      rfl mem_cons_self (fun _ hskb => mem_cons_of_mem _ hskb)
      (fun hfalse => hfalse) hclear

end

end Step

theorem Orderly.step (h : Orderly s) (i : Fin p) (room : Bool) :
    Orderly (step (.step i room) s) := by
  cases hcall : s.calls i with
  | idle =>
    exact h.stay hcall (c := .idle) (t := s) rfl rfl rfl (fun hne => hne)
      (fun _ hskb => hskb) (fun htaking => htaking) trivial
  | push blog =>
    exact h.stay hcall (c := .idle) (t := { s with blogList := blog :: s.blogList }) rfl rfl
      rfl (fun _ => cons_ne_nil _ _) (fun _ hskb => hskb) (fun htaking => htaking)
      trivial
  | test skb fill => exact h.step_test hcall
  | construct skb fill => exact h.step_construct hcall
  | pop skb fill => exact h.step_pop hcall
  | assign skb blog fill => exact h.step_assign hcall
  | fill skb blog =>
    have hready := h.ready i
    rw [hcall] at hready
    have hexec : exec room s (.fill skb blog) = (.idle, s) := by
      rw [exec, if_neg (h.conserved.not_free hready)]
    exact h.stay hcall hexec rfl rfl (fun hne => hne) (fun _ hskb => by cases hskb)
      (fun hfalse => hfalse.elim) trivial
  | load skb goal =>
    have hready := h.ready i
    rw [hcall] at hready
    refine h.stay hcall (c := .unlink skb (s.blogP skb) goal) (t := s) rfl rfl rfl
      (fun hne => hne) ?_ (fun hfalse => hfalse.elim) ⟨rfl, ?_⟩
    · intro other hother
      cases goal <;> exact hother
    · rintro new rfl
      exact hready
  | unlink skb blog goal => exact h.step_unlink hcall

end Orderly

private theorem start_orderly (num : Nat) : Orderly (start num : State m p) where
  conserved := start_conserved num
  apart i j skb hi := by cases hi
  single i j hi := hi.elim
  ready i := trivial

theorem Orderly.event {s : State m p} (h : Orderly s) {e : Event m p}
    (hcareful : Careful e s) : Orderly (Blog.step e s) := by
  cases e with
  | begin i r => exact h.begin hcareful
  | step i room => exact h.step i room
  | link skb blog => exact h.link hcareful

/-- The pool is conserved after every step of a run exactly when every step fits. In runs of calls
that keep out of each other's way every step does. -/
theorem blog_pool_conserved_iff (num : Nat) (events : List (Event m p)) :
    (Allowed step (fun e s => Conserved (step e s)) events (start num) ↔
        Allowed step Fits events (start num)) ∧
      (Allowed step Careful events (start num) →
        Allowed step (fun e s => Conserved (step e s)) events (start num)) := by
  constructor
  · apply Allowed.iff_of_invariant (P := Conserved)
    · exact fun e s hconserved => conserved_step_iff hconserved e
    · exact fun e s _ hnext => hnext
    · exact start_conserved num
  intro hcareful
  apply hcareful.imp_of_invariant (P := Orderly)
  · intro e s h hcase
    have hnext := h.event hcase
    exact ⟨hnext.conserved, hnext⟩
  · exact start_orderly num

/-- The process takes a Blog over to another buffer, and an interrupt between its steps takes one
for a third. -/
def transferRun : List (Event 3 2) :=
  [.begin 0 (.skb 0), .step 0 true, .step 0 true, .step 0 true, .begin 0 (.xfer 1 0),
    .step 0 true, .begin 1 (.skb 2), .step 1 true, .step 1 true, .step 1 true, .step 0 true,
    .step 0 true, .step 0 true]

theorem transferRun_conserved :
    Allowed step (fun e s => Conserved (step e s)) transferRun (start 2) :=
  (blog_pool_conserved_iff 2 transferRun).2 (by decide)

/-- The process finds the last Blog in the list; before it disables interrupts, one takes that
Blog, and the process takes its own from the empty list. -/
theorem last_blog_is_taken_twice :
    (run step
        ([.begin 0 (.skb 0), .step 0 true, .begin 1 (.skb 1), .step 1 true, .step 1 true,
          .step 1 true, .step 0 true] : List (Event 2 2)) (start 1)).faults = [.emptyPop] ∧
      ¬Allowed step (fun e s => Conserved (step e s))
        ([.begin 0 (.skb 0), .step 0 true, .begin 1 (.skb 1), .step 1 true, .step 1 true,
          .step 1 true, .step 0 true] : List (Event 2 2)) (start 1) := by
  refine ⟨rfl, ?_⟩
  rintro ⟨-, -, -, -, -, -, hconserved, -⟩
  cases hconserved.faultless

end EchoLife.Netfilter.Blog
