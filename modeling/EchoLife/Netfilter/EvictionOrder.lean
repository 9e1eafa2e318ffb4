import EchoLife.Netfilter.EvictionList

/-!
The eviction list of the connections. Every connection in it is alive and stands there once, in
the order of the last use, as long as `nf_conntrack_in` moves none that was never put in. One that
was made through ctnetlink is not in the list: its first packet in the established state writes
through the null links, and until then it is passed over when the one idle for longest is looked
for.
-/

namespace EchoLife.Netfilter.Conntrack

open Buckets List Option Run

variable {τ : Type} {n : Nat}

/-! ### What goes wrong -/

variable {outside : List Nat} {s : State τ n} {id : Nat} {p : Packet τ} {tuple : τ} {env : Env τ n}
  {e : Event τ}

/-- A connection that is not in the list has been idle for longer than the first one of
the list. -/
def PassesOver (s : State τ n) : Prop :=
  ∃ id rest other, s.safeList = id :: rest ∧ other ∉ s.safeList ∧
    (s.conns other).isSome ∧ s.used other < s.used id

/-- A new connection takes the place of the first one in the list, while one that is not
in the list has been idle for longer. -/
def Overlooks (env : Env τ n) (orig : τ) (s : State τ n) : Prop :=
  (s.max ≠ 0 ∧ s.max < s.count + 1) ∧
    (∀ h ∈ s.hash (env.hash orig), s.flag Conn.assured h.1 = true) ∧ PassesOver s

private theorem newConn_history (orig repl : τ) (room : Bool) (s : State τ n) :
    (newConn orig repl room s).2.history = s.history := by
  cases room with
  | false => rfl
  | true => rfl

/-- The first of the list is the right one, unless the right one is not in the list. -/
theorem idler_eq_nil_iff (h : Sound outside [] s) {rest : List Nat}
    (hlist : s.safeList = id :: rest) :
    idler id s = [] ↔
      ¬∃ other, other ∉ s.safeList ∧ (s.conns other).isSome ∧ s.used other < s.used id := by
  have hhead : s.safeList.head? = some id := by
    rw [hlist]
    rfl
  rw [idler, filter_eq_nil_iff]
  constructor
  · rintro hnone ⟨other, -, hsome, hlt⟩
    apply hnone other (mem_range.mpr (h.below other hsome))
    rw [hsome, decide_eq_true hlt]
    rfl
  intro hnone other _ hidle
  obtain ⟨hsome, hlt⟩ := Bool.and_eq_true_iff.mp hidle
  apply hnone
  refine ⟨other, ?_, hsome, of_decide_eq_true hlt⟩
  intro hmem
  have hle := h.ordered.head_le hhead other hmem
  exact absurd (of_decide_eq_true hlt) (not_lt.mpr hle)

private theorem pick_history (id : Nat) (s : State τ n) :
    (pick id s).history =
      (s.strays, if idler id s = [] then s.misjudged else id :: s.misjudged) := by
  rw [pick]
  split <;> rfl

section

variable (h : Sound outside [] s)
include h

private theorem regardlessDrop_history (hright : s.misjudged = []) :
    (regardlessDrop s).2.strays = s.strays ∧
      ((regardlessDrop s).2.misjudged = [] ↔ ¬PassesOver s) := by
  rw [regardlessDrop]
  split
  next hlist =>
    refine ⟨rfl, iff_of_true hright ?_⟩
    rintro ⟨id, rest, other, hcons, -⟩
    rw [hlist] at hcons
    cases hcons
  next id rest hlist =>
    have hidler : idler id s = [] ↔ ¬PassesOver s := by
      rw [idler_eq_nil_iff h hlist, not_iff_not]
      constructor
      · rintro ⟨other, hother⟩
        exact ⟨id, rest, other, hlist, hother⟩
      rintro ⟨first, _, other, hcons, hother⟩
      rw [hlist] at hcons
      obtain ⟨rfl, -⟩ := cons.inj hcons
      exact ⟨other, hother⟩
    obtain ⟨hstrays, hmisjudged⟩ :=
      Prod.mk.inj ((drop_history id (pick id s)).trans (pick_history id s))
    refine ⟨hstrays, ?_⟩
    rw [hmisjudged, ← hidler, hright]
    split
    next hnil => exact iff_of_true rfl hnil
    next hcons => exact iff_of_false (cons_ne_nil _ _) hcons

private theorem earlyDrop_cases (slot : Fin n) :
    (∀ found ∈ s.hash slot, s.flag Conn.assured found.1 = true) ∧ earlyDrop slot s = (false, s) ∨
      (∃ found ∈ s.hash slot, s.flag Conn.assured found.1 = false) ∧
        (earlyDrop slot s).1 = true ∧ (earlyDrop slot s).2.history = s.history := by
  rw [earlyDrop]
  cases hfind : (s.hash slot).reverse.find? (fun h => !s.flag Conn.assured h.1) with
  | none =>
    refine .inl ⟨?_, rfl⟩
    intro found hmem
    have hnot := find?_eq_none.mp hfind found (mem_reverse.mpr hmem)
    simpa using hnot
  | some found =>
    have hmem := mem_reverse.mp (mem_of_find?_eq_some hfind)
    have hassured := find?_some hfind
    have hpending := h.hashed found (mem_entries.mpr ⟨slot, hmem⟩)
    refine .inr ⟨⟨found, hmem, ?_⟩, drop_fst hpending, drop_history found.1 s⟩
    simpa using hassured

/-- An allocation picks the wrong connection exactly when it overlooks one. -/
theorem nfConntrackAlloc_history (hright : s.misjudged = [])
    (env : Env τ n) (orig repl : τ) (room : Bool) :
    (nfConntrackAlloc env orig repl room s).2.strays = s.strays ∧
      ((nfConntrackAlloc env orig repl room s).2.misjudged = [] ↔ ¬Overlooks env orig s) := by
  have hcount := h.limits (s.count + 1) s.max s.misjudged
  have hsame {t : State τ n} (ht : t.history = s.history) (hnot : ¬Overlooks env orig s) :
      t.strays = s.strays ∧ (t.misjudged = [] ↔ ¬Overlooks env orig s) := by
    obtain ⟨hstrays, hmisjudged⟩ := Prod.mk.inj ht
    exact ⟨hstrays, iff_of_true (hmisjudged.trans hright) hnot⟩
  rw [nfConntrackAlloc]
  split
  next hfull =>
    rcases earlyDrop_cases hcount (env.hash orig) with
      ⟨hassured, hearly⟩ | ⟨⟨found, hmem, hnot⟩, hearly, hhistory⟩
    · obtain ⟨hstrays, hmisjudged⟩ := regardlessDrop_history hcount hright
      have hover : PassesOver { s with count := s.count + 1 } ↔ Overlooks env orig s :=
        ⟨fun hpass => ⟨hfull, hassured, hpass⟩, fun hover => hover.2.2⟩
      rw [hover] at hmisjudged
      rw [hearly]
      simp only
      split
      next t hdrop =>
        rw [hdrop] at hstrays hmisjudged
        obtain ⟨hstrays', hmisjudged'⟩ := Prod.mk.inj (newConn_history orig repl room t)
        rw [hstrays', hmisjudged']
        exact ⟨hstrays, hmisjudged⟩
      next t hdrop =>
        rw [hdrop] at hstrays hmisjudged
        exact ⟨hstrays, hmisjudged⟩
    · have hassured : ¬Overlooks env orig s := by
        rintro ⟨-, hall, -⟩
        have hset := hall found hmem
        have hclear : s.flag Conn.assured found.1 = false := hnot
        rw [hset] at hclear
        cases hclear
      split
      next t hdrop =>
        rw [hdrop] at hhistory
        exact hsame ((newConn_history orig repl room t).trans hhistory) hassured
      next t hdrop =>
        rw [hdrop] at hearly
        cases hearly
  next hfull =>
    exact hsame (newConn_history orig repl room _) (fun hover => hfull hover.1)

end

private theorem setSeenReply_history (info : CtInfo) (id : Nat) (s : State τ n) :
    (setSeenReply info id s).history = s.history := by
  rw [setSeenReply]
  split <;> rfl

private theorem setSeenReply_safeList (info : CtInfo) (id : Nat) (s : State τ n) :
    (setSeenReply info id s).flag Conn.safeList id = s.flag Conn.safeList id := by
  rw [setSeenReply]
  split
  · exact flag_modify (f := fun ct => { ct with seenReply := true }) (fun _ => rfl) id
  · rfl

private theorem listMoveTail_history (id : Nat) (s : State τ n) :
    (listMoveTail id s).misjudged = s.misjudged ∧
      (listMoveTail id s).strays =
        if s.flag Conn.safeList id = false then id :: s.strays else s.strays := by
  rw [listMoveTail]
  cases s.flag Conn.safeList id with
  | false => exact ⟨rfl, rfl⟩
  | true => exact ⟨rfl, rfl⟩

/-- A packet of an established connection moves it, also when it has no link. -/
theorem track_history (h : Sound outside [] s) (p : Packet τ) (info : CtInfo)
    (hheld : (.skb, id) ∈ s.refs) :
    (track p id info s).2.misjudged = s.misjudged ∧
      (track p id info s).2.strays =
        if 0 ≤ p.ret ∧ (info = .established ∨ info = .establishedReply) ∧
          s.flag Conn.safeList id = false
        then id :: s.strays else s.strays := by
  obtain ⟨-, -, hflag, hhistory⟩ := h.l4Packet p hheld
  obtain ⟨hstrays, hmisjudged⟩ := Prod.mk.inj hhistory
  rw [track]
  split
  next hret =>
    obtain ⟨hstrays', hmisjudged'⟩ :=
      Prod.mk.inj (putLoop_history (id + 1) .skb id (l4Packet p id s))
    rw [if_neg (fun hmoved => absurd hmoved.1 (not_le.mpr hret))]
    exact ⟨hmisjudged'.trans hmisjudged, hstrays'.trans hstrays⟩
  next hret =>
    obtain ⟨hstrays', hmisjudged'⟩ :=
      Prod.mk.inj (setSeenReply_history info id (l4Packet p id s))
    have hlink := (setSeenReply_safeList info id (l4Packet p id s)).trans hflag
    split
    next hinfo =>
      obtain ⟨hmoved, hstray⟩ :=
        listMoveTail_history id (setSeenReply info id (l4Packet p id s))
      refine ⟨hmoved.trans (hmisjudged'.trans hmisjudged), hstray.trans ?_⟩
      rw [hlink, hstrays', hstrays]
      apply if_congr _ rfl rfl
      exact ⟨fun hclear => ⟨not_lt.mp hret, hinfo, hclear⟩, fun hall => hall.2.2⟩
    next hinfo =>
      rw [if_neg (fun hmoved => hinfo hmoved.2.1)]
      exact ⟨hmisjudged'.trans hmisjudged, hstrays'.trans hstrays⟩

theorem ctInfo_established_iff (dir : Dir) (ct : Conn τ) :
    ctInfo dir ct = .established ∨ ctInfo dir ct = .establishedReply ↔
      dir = .reply ∨ ct.seenReply = true := by
  cases dir with
  | reply => simp [ctInfo]
  | original =>
    cases hseen : ct.seenReply with
    | true => simp [ctInfo, hseen]
    | false => cases hexpected : ct.expected <;> simp [ctInfo, hseen, hexpected]

/-- Every connection that was moved was in the list, which has none twice or freed, in the order
of the last use, and every connection evicted from it had been idle for longest. -/
structure LeastRecentlyUsed (s : State τ n) : Prop where
  members : s.strays = []
  once : s.safeList.Nodup
  live : ∀ id ∈ s.safeList, (s.conns id).isSome
  ordered : s.safeList.Pairwise (fun a b => s.used a < s.used b)
  longest : s.misjudged = []

structure Clean (outside : List Nat) (s : State τ n) : Prop where
  sound : Sound outside [] s
  members : s.strays = []
  longest : s.misjudged = []

theorem Clean.leastRecentlyUsed (h : Clean outside s) : LeastRecentlyUsed s where
  members := h.members
  once := h.sound.ordered.nodup
  live id hid := isSome_of_flag ((h.sound.listed id).mp hid)
  ordered := h.sound.ordered.sorted
  longest := h.longest

private theorem start_clean (max : Nat) : Clean [] (start max : State τ n) :=
  ⟨start_sound max, rfl, rfl⟩

section Events
variable [DecidableEq τ]

private theorem welcome_history (env : Env τ n) (tuple : τ) (id : Nat) (s : State τ n) :
    (welcome env tuple id s).history = s.history := by
  rw [welcome]
  rcases findExpectation_cases env tuple (listAddTail id s) with hnone | ⟨e, _, expects, _, hsome⟩
  · rw [hnone]
    rfl
  · rw [hsome]
    rfl

private theorem initConntrack_history (h : Sound outside [] s) (hright : s.misjudged = [])
    (env : Env τ n) (tuple : τ) (p : Packet τ) :
    (initConntrack env tuple p s).2.strays = s.strays ∧
      ((initConntrack env tuple p s).2.misjudged = [] ↔
        ¬(p.inverse.isSome ∧ Overlooks env tuple s)) := by
  rw [initConntrack]
  cases hinverse : p.inverse with
  | none =>
    refine ⟨rfl, iff_of_true hright ?_⟩
    rintro ⟨hsome, -⟩
    cases hsome
  | some repl =>
    obtain ⟨hstrays, hmisjudged⟩ := nfConntrackAlloc_history h hright env tuple repl p.room
    have hiff : ¬((some repl).isSome ∧ Overlooks env tuple s) ↔ ¬Overlooks env tuple s :=
      not_congr (and_iff_right rfl)
    rw [hiff]
    simp only
    split
    next id t heq =>
      rw [heq] at hstrays hmisjudged
      split
      · obtain ⟨hstrays', hmisjudged'⟩ := Prod.mk.inj (welcome_history env tuple id t)
        rw [hstrays', hmisjudged']
        exact ⟨hstrays, hmisjudged⟩
      · exact ⟨hstrays, hmisjudged⟩
    next heq =>
      rw [heq] at hstrays hmisjudged
      exact ⟨hstrays, hmisjudged⟩

def Strays (env : Env τ n) (p : Packet τ) (s : State τ n) : Prop :=
  0 ≤ p.ret ∧ ∃ tuple id dir, p.tuple = some tuple ∧
    nfConntrackFind env tuple s = some (id, dir) ∧
    (dir = .reply ∨ s.flag Conn.seenReply id = true) ∧ s.flag Conn.safeList id = false

/-- A packet of an established connection that is not in the list, or a new connection for which
one is evicted while another, not in the list, has been idle for longer. -/
def Harmful (env : Env τ n) (s : State τ n) : Event τ → Prop
  | .packet p =>
    Strays env p s ∨ ∃ tuple, p.tuple = some tuple ∧
      nfConntrackFind env tuple s = none ∧ p.inverse.isSome ∧ Overlooks env tuple s
  | .newConntrack r =>
    nfConntrackFind env r.otuple s = none ∧ r.create = true ∧ Overlooks env r.otuple s
  | _ => False

private theorem harmful_found_iff {dir : Dir} {ct : Conn τ} (htuple : p.tuple = some tuple)
    (hfind : nfConntrackFind env tuple s = some (id, dir)) (hct : s.conns id = some ct) :
    Harmful env s (.packet p) ↔
      0 ≤ p.ret ∧ (ctInfo dir ct = .established ∨ ctInfo dir ct = .establishedReply) ∧
        s.flag Conn.safeList id = false := by
  rw [ctInfo_established_iff]
  constructor
  · rintro (⟨hret, _, _, _, hsome, hfound, hseen, hclear⟩ | ⟨_, hsome, hnone, -⟩)
    · cases htuple.symm.trans hsome
      cases hfind.symm.trans hfound
      rw [flag_of_some hct] at hseen
      exact ⟨hret, hseen, hclear⟩
    · cases htuple.symm.trans hsome
      cases hfind.symm.trans hnone
  · rintro ⟨hret, hseen, hclear⟩
    rw [← flag_of_some (p := Conn.seenReply) hct] at hseen
    exact .inl ⟨hret, tuple, id, dir, htuple, hfind, hseen, hclear⟩

private theorem harmful_new_iff
    (htuple : p.tuple = some tuple) (hfind : nfConntrackFind env tuple s = none) :
    Harmful env s (.packet p) ↔ p.inverse.isSome ∧ Overlooks env tuple s := by
  constructor
  · rintro (⟨_, _, _, _, hsome, hfound, -⟩ | ⟨_, hsome, -, hover⟩)
    · cases htuple.symm.trans hsome
      cases hfind.symm.trans hfound
    · cases htuple.symm.trans hsome
      exact hover
  · exact fun hover => .inr ⟨tuple, htuple, hfind, hover⟩

section

variable (h : Sound outside [] s) (hmember : s.strays = []) (hright : s.misjudged = [])
  (env : Env τ n)
include h hmember hright

private theorem packet_history (p : Packet τ) :
    (nfConntrackIn env p s).2.strays = [] ∧ (nfConntrackIn env p s).2.misjudged = [] ↔
      ¬Harmful env s (.packet p) := by
  cases htuple : p.tuple with
  | none =>
    rw [nfConntrackIn_untracked htuple]
    refine iff_of_true ⟨hmember, hright⟩ ?_
    rintro (⟨-, tuple, id, dir, hsome, -⟩ | ⟨tuple, hsome, -⟩)
    · cases htuple.symm.trans hsome
    · cases htuple.symm.trans hsome
  | some tuple =>
    cases hfind : nfConntrackFind env tuple s with
    | some found =>
      obtain ⟨id, dir⟩ := found
      have hlive := h.find hfind
      obtain ⟨ct, hct⟩ := isSome_iff_exists.mp hlive
      have hheld := h.hold hlive not_mem_nil .skb
      have hlink : (hold .skb id s).flag Conn.safeList id = s.flag Conn.safeList id :=
        flag_modify (f := fun ct => { ct with use := ct.use + 1 }) (fun _ => rfl) id
      obtain ⟨hmisjudged, hstrays⟩ :=
        track_history hheld p (ctInfo dir ct) mem_cons_self
      rw [nfConntrackIn_found htuple hfind hct, hmisjudged, hstrays,
        harmful_found_iff htuple hfind hct, ← hlink]
      split
      next hmoved => exact iff_of_false (fun hnil => by cases hnil.1) (not_not.mpr hmoved)
      next hmoved => exact iff_of_true ⟨hmember, hright⟩ hmoved
    | none =>
      obtain ⟨hstrays, hmisjudged⟩ := initConntrack_history h hright env tuple p
      have hinit := h.initConntrack env tuple p
      rw [harmful_new_iff htuple hfind]
      rcases nfConntrackIn_new htuple hfind with hsame | ⟨id, t, ct, heq, hct, htrack⟩
      · rw [hsame, hstrays, hmisjudged]
        exact and_iff_right hmember
      rw [heq] at hstrays hmisjudged hinit
      obtain ⟨hmisjudged', hstrays'⟩ :=
        track_history hinit.1 p (ctInfo .original ct) hinit.2.held
      -- The connection is new, so that its first packet moves nothing.
      have hunmoved : ¬(0 ≤ p.ret ∧ (ctInfo .original ct = .established ∨
          ctInfo .original ct = .establishedReply) ∧
          t.flag Conn.safeList id = false) := by
        rintro ⟨-, hinfo, -⟩
        rw [ctInfo_established_iff] at hinfo
        rcases hinfo with hdir | hseen
        · cases hdir
        have hunseen := hinit.2.unseen
        rw [flag_of_some hct, hseen] at hunseen
        cases hunseen
      rw [if_neg hunmoved] at hstrays'
      rw [htrack, hmisjudged', hstrays', hstrays, hmisjudged]
      exact and_iff_right hmember

private theorem newConntrack_history (r : Request τ) :
    (ctnetlinkNewConntrack env r s).strays = [] ∧ (ctnetlinkNewConntrack env r s).misjudged = [] ↔
      ¬Harmful env s (.newConntrack r) := by
  rw [ctnetlinkNewConntrack]
  split
  · next hfind =>
      split
      next hcreate =>
        obtain ⟨hstrays, hmisjudged⟩ :=
          nfConntrackAlloc_history h hright env r.otuple r.rtuple r.room
        have hharm : Harmful env s (.newConntrack r) ↔ Overlooks env r.otuple s :=
          ⟨fun hharm => hharm.2.2, fun hover => ⟨hfind, hcreate, hover⟩⟩
        rw [hharm, ← hmisjudged, ctnetlinkCreateConntrack]
        split
        next id t heq =>
          rw [heq] at hstrays ⊢
          have hkept : t.strays = [] ∧ t.misjudged = [] ↔ t.misjudged = [] :=
            and_iff_right (hstrays.trans hmember)
          split
          · simp only
            split <;> exact hkept
          · exact hkept
        next heq =>
          rw [heq] at hstrays ⊢
          exact and_iff_right (hstrays.trans hmember)
      next hcreate => exact iff_of_true ⟨hmember, hright⟩ (fun hharm => hcreate hharm.2.1)
  next hfind =>
    have hharmless : ¬Harmful env s (.newConntrack r) :=
      fun hharm => by cases hfind.symm.trans hharm.1
    split
    · exact iff_of_true ⟨hmember, hright⟩ hharmless
    · exact iff_of_true ⟨hmember, hright⟩ hharmless

end

section

variable (h : Clean outside s) (env : Env τ n)
include h

theorem Clean.act_history (e : Event τ) :
    (act env s e).strays = [] ∧ (act env s e).misjudged = [] ↔ ¬Harmful env s e := by
  have hkept {t : State τ n} (ht : t.history = s.history) : t.strays = [] ∧ t.misjudged = [] := by
    obtain ⟨hstrays, hmisjudged⟩ := Prod.mk.inj ht
    exact ⟨hstrays.trans h.members, hmisjudged.trans h.longest⟩
  cases e with
  | packet p => exact packet_history h.sound h.members h.longest env p
  | newConntrack r => exact newConntrack_history h.sound h.members h.longest env r
  | confirm id dir =>
    refine iff_of_true (hkept ?_) not_false
    show (nfConntrackConfirm env dir id s).2.history = s.history
    rw [nfConntrackConfirm]
    split
    · rfl
    split
    · rfl
    · split <;> rfl
  | put id => exact iff_of_true (hkept (putLoop_history ..)) not_false
  | timeout id => exact iff_of_true (hkept (deathByTimeout_history id s)) not_false
  | cleanup id => exact iff_of_true (hkept (drop_history id s)) not_false
  | alterReply id newreply => exact iff_of_true (hkept rfl) not_false
  | get id => exact iff_of_true (hkept rfl) not_false
  | expect e => exact iff_of_true (hkept rfl) not_false
  | unexpect e => exact iff_of_true (hkept rfl) not_false
  | sysctl max => exact iff_of_true (hkept rfl) not_false

/-- One event: the list stays as it should be exactly when the event is not harmful. -/
theorem Clean.step_iff (e : Event τ) : LeastRecentlyUsed (step env e s) ↔ ¬Harmful env s e := by
  by_cases hpossible : e.Possible s
  · have hstep : step env e s = act env s e := if_pos ⟨h.members, hpossible⟩
    obtain ⟨outside', hsound⟩ := h.sound.step env e
    rw [hstep] at hsound ⊢
    rw [← h.act_history env e]
    constructor
    · exact fun hlru => ⟨hlru.members, hlru.longest⟩
    · rintro ⟨hmembers, hlongest⟩
      exact Clean.leastRecentlyUsed ⟨hsound, hmembers, hlongest⟩
  · have hstep : step env e s = s := if_neg (fun hboth => hpossible hboth.2)
    rw [hstep]
    refine iff_of_true h.leastRecentlyUsed ?_
    cases e with
    | packet p => exact absurd trivial hpossible
    | newConntrack r => exact absurd trivial hpossible
    | _ => exact not_false

theorem Clean.step
    (hlru : LeastRecentlyUsed (step env e s)) : ∃ outside, Clean outside (step env e s) := by
  obtain ⟨outside', hsound⟩ := h.sound.step env e
  exact ⟨outside', hsound, hlru.members, hlru.longest⟩

end

section

variable (h : Clean [] s) (env : Env τ n)
include h

theorem Clean.harmless (e : Event τ) : ¬Harmful env s e := by
  have hlisted (id : Nat) (hsome : (s.conns id).isSome) : s.flag Conn.safeList id = true := by
    obtain ⟨ct, hct⟩ := isSome_iff_exists.mp hsome
    rw [flag_of_some hct, ← Bool.not_eq_false]
    intro hclear
    exact absurd (h.sound.apart id ct hct hclear) not_mem_nil
  have hpass : ¬PassesOver s := by
    rintro ⟨id, rest, other, -, hnot, hsome, -⟩
    exact hnot ((h.sound.listed other).mpr (hlisted other hsome))
  cases e with
  | packet p =>
    rintro (⟨-, tuple, id, dir, -, hfind, -, hclear⟩ | ⟨tuple, -, -, -, hover⟩)
    · rw [hlisted id (h.sound.find hfind)] at hclear
      cases hclear
    · exact hpass hover.2.2
  | newConntrack r => exact fun hharm => hpass hharm.2.2.2.2
  | _ => exact not_false

/-- As long as ctnetlink makes no connection, all connections are in the list. -/
theorem Clean.step_listed
    (hmade : ∀ r, e ≠ .newConntrack r) : Clean [] (Conntrack.step env e s) := by
  have hlru := (h.step_iff env e).mpr (h.harmless env e)
  refine ⟨?_, hlru.members, hlru.longest⟩
  rw [Conntrack.step]
  split
  next hpossible => exact h.sound.act env hpossible.2 hmade
  · exact h.sound

theorem Clean.run_listed {events : List (Event τ)} (hmade : ∀ r, Event.newConntrack r ∉ events) :
    Allowed (Conntrack.step env) (fun e s => LeastRecentlyUsed (Conntrack.step env e s)) events s ∧
      Clean [] (run (Conntrack.step env) events s) := by
  have hothers : Allowed (Conntrack.step env) (fun e _ => ∀ r, e ≠ .newConntrack r) events s := by
    apply Allowed.of_forall
    rintro e he _ r rfl
    exact hmade r he
  constructor
  · apply hothers.imp_of_invariant (P := Clean [])
    · intro e t ht hother
      have hnext := ht.step_listed env hother
      exact ⟨hnext.leastRecentlyUsed, hnext⟩
    · exact h
  · exact hothers.invariant (fun e t ht hother => ht.step_listed env hother) h

end

end Events

/-- In every run the use counts are exact, and hash entries, references and expectations name
connections that have not been freed. -/
theorem connections_sound [DecidableEq τ] (env : Env τ n) (max : Nat) (events : List (Event τ)) :
    ∃ outside, Sound outside [] (run (step env) events (start max)) := by
  apply run_invariant (P := fun s => ∃ outside, Sound outside [] s) _ ⟨[], start_sound max⟩
  rintro e _ s ⟨outside, h⟩
  exact h.step env e

/-- The list is right after every event of a run exactly when no packet of an established
connection meets one that ctnetlink made, and none that is idle for longest is passed over for not
being in the list. Without connections that ctnetlink made, all are in the list and neither
happens. -/
theorem eviction_least_recently_used_iff [DecidableEq τ] (env : Env τ n) (max : Nat)
    (events : List (Event τ)) :
    (Allowed (step env) (fun e s => LeastRecentlyUsed (step env e s)) events (start max) ↔
        Allowed (step env) (fun e s => ¬Harmful env s e) events (start max)) ∧
      ((∀ r, Event.newConntrack r ∉ events) →
        Allowed (step env) (fun e s => LeastRecentlyUsed (step env e s)) events (start max) ∧
        ∀ id, ((run (step env) events (start max)).conns id).isSome →
          id ∈ (run (step env) events (start max)).safeList) := by
  constructor
  · apply Allowed.iff_of_invariant (P := fun s => ∃ outside, Clean outside s)
    · rintro e s ⟨outside, hclean⟩
      exact hclean.step_iff env e
    · rintro e s ⟨outside, hclean⟩ hlru
      exact hclean.step env hlru
    · exact ⟨[], start_clean max⟩
  · intro hmade
    obtain ⟨hallowed, hclean⟩ := (start_clean max).run_listed env hmade
    refine ⟨hallowed, ?_⟩
    intro id hsome
    obtain ⟨ct, hct⟩ := isSome_iff_exists.mp hsome
    rw [hclean.sound.listed, flag_of_some hct, ← Bool.not_eq_false]
    intro hclear
    exact absurd (hclean.sound.apart id ct hct hclear) not_mem_nil

def oneChain : Env Nat 1 :=
  ⟨fun _ => ⟨0, Nat.one_pos⟩, fun _ _ => false⟩

def plainPacket (tuple inverse : Nat) : Packet Nat :=
  ⟨some tuple, some inverse, true, true, false, false, 1⟩

/-- Two packets of a connection, one in each direction, leave it in the list. -/
theorem oneChain_eviction_least_recently_used_iff :
    Allowed (step oneChain) (fun e s => LeastRecentlyUsed (step oneChain e s))
      [.packet (plainPacket 1 2), .confirm 0 .original, .packet (plainPacket 2 1)]
      (start 0) :=
  ((eviction_least_recently_used_iff oneChain 0 _).2 (by simp)).1

/-- A request makes a connection with the status bit for a reply, and a packet of it moves it
within a list that it is not in. -/
theorem created_connection_is_moved :
    (run (step oneChain)
        [.newConntrack ⟨1, 2, true, true, true, true, true, true, true⟩,
          .packet (plainPacket 1 2)] (start 0)).strays = [0] ∧
      ¬Allowed (step oneChain) (fun e s => LeastRecentlyUsed (step oneChain e s))
        [.newConntrack ⟨1, 2, true, true, true, true, true, true, true⟩,
          .packet (plainPacket 1 2)] (start 0) := by
  refine ⟨rfl, ?_⟩
  rintro ⟨-, hlru, -⟩
  have hmembers := hlru.members
  cases hmembers

end EchoLife.Netfilter.Conntrack
