import EchoLife.Base.Buckets
import EchoLife.Base.Inventory
import EchoLife.Base.Run

/-!
The pool of flow logs (`blog.c`). A Blog is in the free list, attached to a packet buffer, or in
the hands of one call. The free list is read and written with interrupts disabled, one step each;
between the steps of a call any other call may run. `blog_get` finds the list filled before it
disables interrupts, and a call that stores a Blog does not look whether there is one already. The
pool is conserved exactly when neither does harm.
-/

namespace EchoLife.Netfilter.Blog

open Buckets Function Inventory List Option Run

/-! ### The calls -/

def blogExtendSize : Nat := 25

variable {m p : Nat}

/-- What becomes of a Blog taken off a buffer: `blog_free` puts it into the free list, `blog_null`
returns it, `blog_xfer` gives it to another buffer. -/
inductive Goal (m : Nat)
  | free
  | null
  | xfer (skb : Fin m)
  deriving DecidableEq

/-- The next step of a call. `fill` says that the Blog is to point to its buffer. -/
inductive Call (m : Nat)
  | idle
  | test (skb : Fin m) (fill : Bool)
  | construct (skb : Fin m) (fill : Bool)
  | pop (skb : Fin m) (fill : Bool)
  | assign (skb : Fin m) (blog : Option Nat) (fill : Bool)
  | fill (skb : Fin m) (blog : Nat)
  | load (skb : Fin m) (goal : Goal m)
  | unlink (skb : Fin m) (blog : Option Nat) (goal : Goal m)
  | push (blog : Nat)
  deriving DecidableEq

/-- A Blog was taken from an empty list, or the link of one in the list overwritten. -/
inductive Fault
  | emptyPop
  | freeWritten
  deriving DecidableEq

/-- The free list, the Blog of each buffer and the call of each context: the process and the
interrupts that preempted it. History: the Blogs that callers hold, the number made, and what went
wrong. -/
structure State (m p : Nat) where
  blogList : List Nat
  blogP : Fin m → Option Nat
  calls : Fin p → Call m
  hands : List Nat
  made : Nat
  faults : List Fault

inductive Request (m : Nat)
  | skb (skb : Fin m)
  | clone (skb : Fin m) (prev : Option Nat)
  | xfer (skb prev : Fin m)
  | free (skb : Fin m)
  | null (skb : Fin m)
  | put (blog : Nat)

def enter : Request m → Call m
  | .skb skb => .test skb false
  | .clone _ none => .idle
  | .clone skb (some _) => .test skb true
  | .xfer skb prev => .load prev (.xfer skb)
  | .free skb => .load skb .free
  | .null skb => .load skb .null
  | .put blog => .push blog

def blogConstruct (num : Nat) (s : State m p) : State m p :=
  { s with
    blogList := range' s.made num ++ s.blogList
    made := s.made + num }

def fault (f : Fault) (s : State m p) : State m p :=
  { s with faults := f :: s.faults }

/-- `skb_p->blog_p = blog_p`. -/
def setBlog (skb : Fin m) (blog : Option Nat) (s : State m p) : State m p :=
  { s with blogP := update s.blogP skb blog }

/-- One step of a call, and the next one; `room` says whether `kmalloc` succeeds. -/
def exec (room : Bool) (s : State m p) : Call m → Call m × State m p
  | .idle => (.idle, s)
  | .test skb fill =>
    (if s.blogList = [] then .construct skb fill else .pop skb fill, s)
  | .construct skb fill =>
    if room then (.pop skb fill, blogConstruct blogExtendSize s)
    else (.assign skb none fill, s)
  | .pop skb fill =>
    match s.blogList with
    | [] => (.idle, fault .emptyPop s)
    | blog :: rest => (.assign skb (some blog) fill, { s with blogList := rest })
  | .assign skb blog fill =>
    (match blog with
      | some blog => if fill then .fill skb blog else .idle
      | none => .idle,
      setBlog skb blog s)
  | .fill _ blog => (.idle, if blog ∈ s.blogList then fault .freeWritten s else s)
  | .load skb goal => (.unlink skb (s.blogP skb) goal, s)
  | .unlink skb blog goal =>
    match goal with
    | .free => (match blog with | some blog => .push blog | none => .idle, setBlog skb none s)
    | .null => (.idle, { setBlog skb none s with hands := blog.toList ++ s.hands })
    | .xfer new => (.assign new blog true, setBlog skb none s)
  | .push blog => (.idle, { s with blogList := blog :: s.blogList })

def setCall (i : Fin p) (c : Call m) (s : State m p) : State m p :=
  { s with calls := update s.calls i c }

/-- A context begins a call or takes a step of it, or links a Blog to a buffer, which is one
store. -/
inductive Event (m p : Nat)
  | begin (i : Fin p) (r : Request m)
  | step (i : Fin p) (room : Bool)
  | link (skb : Fin m) (blog : Nat)

def give (blog : Nat) (s : State m p) : State m p :=
  { s with hands := s.hands.erase blog }

def step : Event m p → State m p → State m p
  | .begin i r, s =>
    if s.calls i = .idle then
      match r with
      | .put blog => setCall i (enter r) (give blog s)
      | _ => setCall i (enter r) s
    else s
  | .step i room, s => setCall i (exec room s (s.calls i)).1 (exec room s (s.calls i)).2
  | .link skb blog, s => setBlog skb (some blog) (give blog s)

/-- What `__init_blog` leaves; it makes 400 Blogs, or none if `kmalloc` fails. -/
def start (num : Nat) : State m p :=
  blogConstruct num ⟨[], fun _ => none, fun _ => .idle, [], 0, []⟩

/-! ### Conservation -/

def Call.carried : Call m → List Nat
  | .assign _ blog _ => blog.toList
  | .push blog => [blog]
  | _ => []

def attached (s : State m p) : List Nat :=
  entries (toList ∘ s.blogP)

def shelf (s : State m p) : List Nat :=
  s.blogList ++ (attached s ++ s.hands)

def stock (s : State m p) : List Nat :=
  shelf s ++ entries (Call.carried ∘ s.calls)

/-- Each Blog is at one place: once in the free list, on one buffer, or in the hands of one call
or caller; and none was taken from an empty list. -/
structure Conserved (s : State m p) : Prop where
  complete : Complete s.made (stock s)
  faultless : s.faults = []

/-- What a step needs: a Blog in the list to take, no Blog on the buffer to store into, and on a
buffer to clear the Blog read there. -/
def Fits : Event m p → State m p → Prop
  | .begin i (.put blog), s => s.calls i = .idle → blog ∈ s.hands
  | .begin _ _, _ => True
  | .step i _, s =>
    match s.calls i with
    | .pop _ _ => s.blogList ≠ []
    | .assign skb _ _ => s.blogP skb = none
    | .fill _ blog => blog ∉ s.blogList
    | .unlink skb blog _ => s.blogP skb = blog
    | _ => True
  | .link skb blog, s => if blog ∈ s.hands then s.blogP skb = none else s.blogP skb = some blog

variable {c : Call m} {fill : Bool} {blog : Option Nat}

section Balance
variable {s t : State m p} {i : Fin p} {skb : Fin m} {lost gained : List Nat}

theorem attached_setBlog (s : State m p) (skb : Fin m) (blog : Option Nat) :
    (attached (setBlog skb blog s) ++ (s.blogP skb).toList).Perm (attached s ++ blog.toList) := by
  rw [attached, setBlog, comp_update]
  exact entries_update_perm (toList ∘ s.blogP) skb blog.toList

theorem shelf_setBlog (s : State m p) (skb : Fin m) (blog : Option Nat) :
    (shelf (setBlog skb blog s) ++ (s.blogP skb).toList).Perm (shelf s ++ blog.toList) := by
  have hstore := perm_iff_count.mp (attached_setBlog s skb blog)
  rw [perm_iff_count]
  intro b
  have hcount := hstore b
  simp only [shelf, count_append] at hcount ⊢
  show count b s.blogList + (_ + count b s.hands) + _ = _
  omega

/-- A call goes on: the balance of the shelf and of what the call has in its hands. -/
theorem complete_setCall (h : Complete s.made (stock s)) (c : Call m) (hmade : t.made = s.made)
    (hcalls : t.calls = s.calls) (hshelf : (shelf t ++ lost).Perm (shelf s ++ gained)) :
    Complete (setCall i c t).made (stock (setCall i c t)) ↔
      (lost ++ (s.calls i).carried).Perm (gained ++ c.carried) := by
  have hcall := entries_update_perm (Call.carried ∘ s.calls) i c.carried
  have hstock : stock (setCall i c t)
      = shelf t ++ entries (update (Call.carried ∘ s.calls) i c.carried) := by
    rw [stock, setCall, comp_update, hcalls]
    rfl
  have hbalance : (stock (setCall i c t) ++ (lost ++ (s.calls i).carried)).Perm
      (stock s ++ (gained ++ c.carried)) := by
    rw [hstock, perm_iff_count]
    intro b
    have hcount := perm_iff_count.mp hcall b
    have hcount' := perm_iff_count.mp hshelf b
    simp only [stock, count_append, comp_apply] at hcount hcount' ⊢
    omega
  have hsame : (setCall i c t).made = s.made := hmade
  rw [hsame]
  exact h.exchange hbalance

theorem toList_perm_iff {a b : Option Nat} : a.toList.Perm b.toList ↔ a = b := by
  cases a with
  | none =>
    cases b with
    | none => simp
    | some b => simp
  | some a =>
    cases b with
    | none => simp
    | some b => simp

theorem conserved_setCall (h : Conserved s) (c : Call m)
    (hshelf : (shelf t ++ lost).Perm (shelf s ++ gained)) (hmade : t.made = s.made)
    (hcalls : t.calls = s.calls) (hfaults : t.faults = s.faults) :
    Conserved (setCall i c t) ↔ (lost ++ (s.calls i).carried).Perm (gained ++ c.carried) := by
  rw [← complete_setCall h.complete c hmade hcalls hshelf]
  exact ⟨Conserved.complete, fun hcomplete => ⟨hcomplete, hfaults.trans h.faultless⟩⟩

theorem conserved_goOn (h : Conserved s)
    (hcarried : c.carried = (s.calls i).carried) : Conserved (setCall i c s) := by
  rw [conserved_setCall h c (List.Perm.refl (shelf s ++ [])) rfl rfl rfl, hcarried]

theorem step_of_exec {room : Bool} (h : exec room s (s.calls i) = (c, t)) :
    step (.step i room) s = setCall i c t := by
  rw [step, h]

section

variable (h : Conserved s)
include h

private theorem conserved_pop_iff (hcall : s.calls i = .pop skb fill)
    (room : Bool) : Conserved (step (.step i room) s) ↔ s.blogList ≠ [] := by
  cases hlist : s.blogList with
  | nil =>
    have hexec : exec room s (s.calls i) = (.idle, fault .emptyPop s) := by
      simp only [hcall, exec, hlist]
    rw [step_of_exec hexec]
    refine iff_of_false ?_ (not_not.mpr rfl)
    intro hconserved
    cases hconserved.faultless
  | cons blog rest =>
    have hexec : exec room s (s.calls i)
        = (.assign skb (some blog) fill, { s with blogList := rest }) := by
      simp only [hcall, exec, hlist]
    have hshelf : (shelf { s with blogList := rest } ++ [blog]).Perm (shelf s ++ []) := by
      rw [append_nil]
      refine (perm_append_singleton blog _).trans ?_
      rw [shelf, shelf, hlist]
      exact List.Perm.refl _
    rw [step_of_exec hexec, conserved_setCall h _ hshelf rfl rfl rfl, hcall]
    exact iff_of_true (List.Perm.refl _) (cons_ne_nil _ _)

private theorem conserved_assign_iff (hcall : s.calls i = .assign skb blog fill) (room : Bool) :
    Conserved (step (.step i room) s) ↔ s.blogP skb = none := by
  obtain ⟨c, hexec, hdone⟩ : ∃ c : Call m,
      exec room s (s.calls i) = (c, setBlog skb blog s) ∧ c.carried = [] := by
    rw [hcall]
    refine ⟨_, rfl, ?_⟩
    cases blog with
    | none => rfl
    | some blog => cases fill <;> rfl
  rw [step_of_exec hexec, conserved_setCall h _ (shelf_setBlog s skb blog) rfl rfl rfl, hcall,
    hdone, ← toList_perm_iff, append_nil]
  have hcancel : ((s.blogP skb).toList ++ blog.toList).Perm ([] ++ blog.toList) ↔
      (s.blogP skb).toList.Perm [] := perm_append_right_iff blog.toList
  exact hcancel

private theorem conserved_fill_iff {blog : Nat} (hcall : s.calls i = .fill skb blog) (room : Bool) :
    Conserved (step (.step i room) s) ↔ blog ∉ s.blogList := by
  have hexec : exec room s (s.calls i)
      = (.idle, if blog ∈ s.blogList then fault .freeWritten s else s) := by
    rw [hcall]
    rfl
  rw [step_of_exec hexec]
  split
  next hmem =>
    refine iff_of_false ?_ (not_not.mpr hmem)
    intro hconserved
    cases hconserved.faultless
  next hnot =>
    refine iff_of_true (conserved_goOn h ?_) hnot
    rw [hcall]
    rfl

private theorem conserved_unlink_iff {goal : Goal m} (hcall : s.calls i = .unlink skb blog goal)
    (room : Bool) : Conserved (step (.step i room) s) ↔ s.blogP skb = blog := by
  have hclear := shelf_setBlog s skb none
  rw [← toList_perm_iff]
  cases goal with
  | free =>
    obtain ⟨c, hexec, hcarried⟩ : ∃ c : Call m,
        exec room s (s.calls i) = (c, setBlog skb none s) ∧ c.carried = blog.toList := by
      rw [hcall]
      refine ⟨_, rfl, ?_⟩
      cases blog <;> rfl
    rw [step_of_exec hexec, conserved_setCall h _ hclear rfl rfl rfl, hcall, hcarried]
    simp [Call.carried]
  | null =>
    have hshelf : (shelf { setBlog skb none s with hands := blog.toList ++ s.hands } ++
        (s.blogP skb).toList).Perm (shelf s ++ blog.toList) := by
      rw [perm_iff_count]
      intro b
      have hcount := perm_iff_count.mp (attached_setBlog s skb none) b
      simp only [shelf, count_append, toList_none, count_nil] at hcount ⊢
      show count b s.blogList + (count b (attached (setBlog skb none s)) + _) + _ = _
      omega
    have hexec : exec room s (s.calls i)
        = (.idle, { setBlog skb none s with hands := blog.toList ++ s.hands }) := by
      rw [hcall]
      rfl
    rw [step_of_exec hexec, conserved_setCall h _ hshelf rfl rfl rfl, hcall]
    simp [Call.carried]
  | xfer new =>
    have hexec : exec room s (s.calls i) = (.assign new blog true, setBlog skb none s) := by
      rw [hcall]
      rfl
    rw [step_of_exec hexec, conserved_setCall h _ hclear rfl rfl rfl, hcall]
    simp [Call.carried]

private theorem conserved_push {blog : Nat} (hcall : s.calls i = .push blog)
    (room : Bool) : Conserved (step (.step i room) s) := by
  have hshelf : (shelf { s with blogList := blog :: s.blogList } ++ []).Perm
      (shelf s ++ [blog]) := by
    rw [append_nil]
    exact (perm_append_singleton blog (shelf s)).symm
  have hexec : exec room s (s.calls i) = (.idle, { s with blogList := blog :: s.blogList }) := by
    rw [hcall]
    rfl
  rw [step_of_exec hexec, conserved_setCall h _ hshelf rfl rfl rfl, hcall]
  exact List.Perm.refl _

theorem Conserved.blogConstruct (num : Nat) : Conserved (blogConstruct num s) := by
  refine ⟨h.complete.extend ?_, h.faultless⟩
  rw [perm_iff_count]
  intro b
  simp only [stock, shelf, Blog.blogConstruct, count_append]
  show _ + count b s.blogList + (count b (attached s) + _) + _ = _
  omega

private theorem conserved_construct (hcall : s.calls i = .construct skb fill) (room : Bool) :
    Conserved (step (.step i room) s) := by
  have hcarried : (s.calls i).carried = [] := by
    rw [hcall]
    rfl
  cases room with
  | false =>
    have hexec : exec false s (s.calls i) = (.assign skb none fill, s) := by
      rw [hcall]
      rfl
    rw [step_of_exec hexec]
    exact conserved_goOn h hcarried.symm
  | true =>
    have hexec : exec true s (s.calls i) = (.pop skb fill, blogConstruct blogExtendSize s) := by
      rw [hcall]
      rfl
    rw [step_of_exec hexec]
    exact conserved_goOn (h.blogConstruct blogExtendSize) hcarried.symm

private theorem conserved_put_iff (hidle : s.calls i = .idle) (blog : Nat) :
    Conserved (step (.begin i (.put blog)) s) ↔ blog ∈ s.hands := by
  simp only [step, if_pos hidle]
  by_cases hmem : blog ∈ s.hands
  · refine iff_of_true ?_ hmem
    have hshelf : (shelf (give blog s) ++ [blog]).Perm (shelf s ++ []) := by
      have hperm := perm_iff_count.mp (perm_cons_erase hmem)
      rw [perm_iff_count]
      intro b
      have hcount := hperm b
      simp only [shelf, count_append, count_cons, count_nil] at hcount ⊢
      show count b s.blogList + (count b (attached s) + count b (s.hands.erase blog)) + _ = _
      omega
    rw [conserved_setCall h _ hshelf rfl rfl rfl, hidle]
    exact List.Perm.refl _
  · refine iff_of_false ?_ hmem
    have hshelf : (shelf (give blog s) ++ []).Perm (shelf s ++ []) := by
      rw [give, erase_of_not_mem hmem]
    rw [conserved_setCall h _ hshelf rfl rfl rfl, hidle]
    intro hperm
    cases hperm.length_eq

theorem conserved_link_iff (blog : Nat) :
    Conserved (step (.link skb blog) s) ↔ Fits (.link skb blog : Event m p) s := by
  have hstore := shelf_setBlog (give blog s) skb (some blog)
  have hexchange {lost gained : List Nat}
      (hshelf : (shelf (setBlog skb (some blog) (give blog s)) ++ lost).Perm (shelf s ++ gained)) :
      Conserved (step (.link skb blog) s) ↔ lost.Perm gained := by
    have hbalance : (stock (step (.link skb blog) s) ++ lost).Perm (stock s ++ gained) := by
      rw [perm_iff_count]
      intro b
      have hcount := perm_iff_count.mp hshelf b
      simp only [stock, step, count_append] at hcount ⊢
      show _ + count b (entries (Call.carried ∘ s.calls)) + _ = _
      omega
    rw [← h.complete.exchange hbalance]
    exact ⟨Conserved.complete, fun hcomplete => ⟨hcomplete, h.faultless⟩⟩
  rw [Fits]
  split
  next hmem =>
    have hperm := perm_iff_count.mp (perm_cons_erase hmem)
    have hshelf : (shelf (setBlog skb (some blog) (give blog s)) ++
        ((s.blogP skb).toList ++ [blog])).Perm (shelf s ++ [blog]) := by
      rw [perm_iff_count]
      intro b
      have hcount := hperm b
      have hcount' := perm_iff_count.mp hstore b
      have hgive : count b (shelf (give blog s)) = count b s.blogList +
          (count b (attached s) + count b (s.hands.erase blog)) := by
        simp only [shelf, count_append]
        rfl
      have hshelf : count b (shelf s) = count b s.blogList +
          (count b (attached s) + count b s.hands) := by
        simp only [shelf, count_append]
      have hsame : (give blog s).blogP skb = s.blogP skb := rfl
      simp only [count_append, count_cons, count_nil, hsame, toList_some] at hcount hcount' ⊢
      omega
    rw [hexchange hshelf, ← toList_perm_iff]
    have hcancel : ((s.blogP skb).toList ++ [blog]).Perm ([] ++ [blog]) ↔
        (s.blogP skb).toList.Perm [] := perm_append_right_iff [blog]
    exact hcancel
  next hnot =>
    have hshelf : (shelf (setBlog skb (some blog) (give blog s)) ++
        (s.blogP skb).toList).Perm (shelf s ++ [blog]) := by
      have hsame : give blog s = s := by
        rw [give, erase_of_not_mem hnot]
      rw [hsame] at hstore ⊢
      exact hstore
    rw [hexchange hshelf, ← toList_perm_iff]
    exact Iff.rfl

/-- A new call holds no Blog yet, except that `blog_put` is given one. -/
theorem conserved_begin_iff (i : Fin p) (r : Request m) :
    Conserved (step (.begin i r) s) ↔ Fits (.begin i r) s := by
  by_cases hidle : s.calls i = .idle
  · have hgoOn (c : Call m) (hcarried : c.carried = []) : Conserved (setCall i c s) := by
      apply conserved_goOn h
      rw [hidle, hcarried]
      rfl
    cases r with
    | put blog =>
      rw [conserved_put_iff h hidle]
      exact ⟨fun hmem _ => hmem, fun hfits => hfits hidle⟩
    | skb skb =>
      simp only [step, if_pos hidle]
      exact iff_of_true (hgoOn _ rfl) trivial
    | clone skb prev =>
      simp only [step, if_pos hidle]
      cases prev with
      | none => exact iff_of_true (hgoOn _ rfl) trivial
      | some prev => exact iff_of_true (hgoOn _ rfl) trivial
    | xfer skb prev =>
      simp only [step, if_pos hidle]
      exact iff_of_true (hgoOn _ rfl) trivial
    | free skb =>
      simp only [step, if_pos hidle]
      exact iff_of_true (hgoOn _ rfl) trivial
    | null skb =>
      simp only [step, if_pos hidle]
      exact iff_of_true (hgoOn _ rfl) trivial
  · simp only [step, if_neg hidle]
    refine iff_of_true h ?_
    cases r with
    | put blog => exact fun hin => absurd hin hidle
    | _ => trivial

/-- One event: the Blogs are all there exactly when the event fits. -/
theorem conserved_step_iff (e : Event m p) : Conserved (step e s) ↔ Fits e s := by
  cases e with
  | link skb blog => exact conserved_link_iff h blog
  | begin i r => exact conserved_begin_iff h i r
  | step i room =>
    cases hcall : s.calls i with
    | idle =>
      simp only [step, Fits, hcall, exec, iff_true]
      exact conserved_goOn h (by rw [hcall])
    | test skb fill =>
      simp only [step, Fits, hcall, exec, iff_true]
      refine conserved_goOn h ?_
      rw [hcall]
      split <;> rfl
    | construct skb fill =>
      simp only [Fits, hcall, iff_true]
      exact conserved_construct h hcall room
    | pop skb fill =>
      simp only [Fits, hcall]
      exact conserved_pop_iff h hcall room
    | assign skb blog fill =>
      simp only [Fits, hcall]
      exact conserved_assign_iff h hcall room
    | fill skb blog =>
      simp only [Fits, hcall]
      exact conserved_fill_iff h hcall room
    | load skb goal =>
      simp only [step, Fits, hcall, exec, iff_true]
      exact conserved_goOn h (by rw [hcall]; rfl)
    | unlink skb blog goal =>
      simp only [Fits, hcall]
      exact conserved_unlink_iff h hcall room
    | push blog =>
      simp only [Fits, hcall, iff_true]
      exact conserved_push h hcall room

end

end Balance

theorem start_conserved (num : Nat) : Conserved (start num : State m p) := by
  apply Conserved.blogConstruct
  refine ⟨?_, rfl⟩
  have hattached : entries (toList ∘ fun _ : Fin m => (none : Option Nat)) = [] :=
    entries_eq_nil (fun _ => rfl)
  have hcarried : entries (Call.carried ∘ fun _ : Fin p => (.idle : Call m)) = [] :=
    entries_eq_nil (fun _ => rfl)
  show Complete 0 ([] ++ (entries _ ++ []) ++ entries _)
  rw [hattached, hcarried]
  exact List.Perm.refl _

end EchoLife.Netfilter.Blog
