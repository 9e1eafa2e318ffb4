import EchoLife.Netfilter.EvictionCounts

/-!
The eviction list along the events: how a connection is allocated, enters the list and
the hash table, is moved by its packets and leaves. The invariant is that of the
reference counts, with the connections that ctnetlink has made outside the list.
-/

namespace EchoLife.Netfilter.Conntrack

open Buckets Function List Option Run

variable {τ : Type} {n : Nat}

/-! ### New connections -/

variable {outside : List Nat} {s : State τ n} {id : Nat} {ct : Conn τ} {env : Env τ n} {tuple : τ}
  {dir : Dir}

section Alloc
variable {orig repl : τ}

structure Fresh (orig repl : τ) (id : Nat) (s : State τ n) : Prop where
  conn : s.conns id = some (.allocated orig repl)
  next : s.next = id + 1
  held : (.skb, id) ∈ s.refs
  expects : ∀ e ∈ s.expects, e.master ≠ id

/-- What an allocation leaves: a connection outside the list, or none. -/
def Allocated (orig repl : τ) (outside : List Nat) : Alloc × State τ n → Prop
  | (.made id, s) => Sound (id :: outside) [] s ∧ Fresh orig repl id s
  | (_, s) => Sound outside [] s

/-- A refused allocation leaves a sound state. -/
theorem Allocated.refused {result : Alloc} (h : Allocated orig repl outside (result, s))
    (hmade : ∀ id, result ≠ .made id) : Sound outside [] s := by
  cases result with
  | made id => exact absurd rfl (hmade id)
  | enomem => exact h
  | null => exact h

theorem Sound.widen (h : Sound outside [] s) (id : Nat) : Sound (id :: outside) [] s :=
  { h with apart := fun id ct hct hnot => mem_cons_of_mem _ (h.apart id ct hct hnot) }

theorem Sound.limits (h : Sound outside [] s) (count max : Nat) (misjudged : List Nat) :
    Sound outside [] { s with count := count, max := max, misjudged := misjudged } :=
  { h with }

theorem newConn_self (s : State τ n) (orig repl : τ) :
    (newConn orig repl true s).2.conns s.next = some (.allocated orig repl) :=
  update_self ..

private theorem newConn_eq_some (h : (newConn orig repl true s).2.conns id = some ct) :
    id = s.next ∧ ct = .allocated orig repl ∨ id ≠ s.next ∧ s.conns id = some ct := by
  by_cases hne : id = s.next
  · rw [hne, newConn_self] at h
    exact .inl ⟨hne, (some.inj h).symm⟩
  · exact .inr ⟨hne, (update_of_ne hne ..).symm.trans h⟩

theorem newConn_old (hne : id ≠ s.next) : (newConn orig repl true s).2.conns id = s.conns id :=
  update_of_ne hne ..

section

variable (h : Sound outside [] s)
include h

/-- A new connection is outside the list until it is linked. -/
theorem Sound.newConn (orig repl : τ) (room : Bool) :
    Allocated orig repl outside (newConn orig repl room s) := by
  cases room with
  | false => exact h.limits _ _ _
  | true =>
    have hold (id : Nat) (hsome : (s.conns id).isSome) :
        (Conntrack.newConn orig repl true s).2.conns id = s.conns id :=
      newConn_old (ne_of_lt (h.below id hsome))
    have hlive (id : Nat) (hsome : (s.conns id).isSome) :
        ((Conntrack.newConn orig repl true s).2.conns id).isSome := by
      rw [hold id hsome]
      exact hsome
    have hflag (p : Conn τ → Bool) (id : Nat) (hset : s.flag p id = true) :
        (Conntrack.newConn orig repl true s).2.flag p id = true := by
      rw [State.flag, hold id (isSome_of_flag hset)]
      exact hset
    have hrefs : refCount s.next s.refs = 0 := by
      rw [refCount, countP_eq_zero]
      intro r hr heq
      have hlt := h.below r.2 (h.held r hr)
      rw [of_decide_eq_true heq] at hlt
      exact lt_irrefl _ hlt
    refine ⟨⟨h.ordered, ?_, ?_, ?_, ?_, ?_, ?_, ?_, ?_, ?_, ?_⟩,
      newConn_self s orig repl, rfl, mem_cons_self, ?_⟩
    · intro id
      refine (h.listed id).trans ⟨hflag Conn.safeList id, ?_⟩
      intro hset
      obtain ⟨ct, hct⟩ := isSome_iff_exists.mp (isSome_of_flag hset)
      rw [flag_of_some hct] at hset
      rcases newConn_eq_some hct with ⟨-, rfl⟩ | ⟨-, hwas⟩
      · cases hset
      · exact (flag_of_some hwas).trans hset
    · intro id ct hct hnot
      rcases newConn_eq_some hct with ⟨rfl, -⟩ | ⟨-, hwas⟩
      · exact mem_cons_self
      · exact mem_cons_of_mem _ (h.apart id ct hwas hnot)
    · exact fun e he => hflag Conn.timeout e.1 (h.hashed e he)
    · intro id ct hct hnot
      rcases newConn_eq_some hct with ⟨-, rfl⟩ | ⟨-, hwas⟩
      · rfl
      · exact h.waiting id ct hwas hnot
    · intro id ct hct
      rcases newConn_eq_some hct with ⟨rfl, rfl⟩ | ⟨hne, hwas⟩
      · show 1 = refCount s.next ((.skb, s.next) :: s.refs) + 0
        rw [refCount_cons_self, hrefs]
      · rw [refCount_cons_other .skb s.refs hne]
        exact h.counted id ct hwas
    · refine forall_mem_cons.mpr ⟨?_, fun r hrest => hlive r.2 (h.held r hrest)⟩
      exact isSome_iff_exists.mpr ⟨_, newConn_self s orig repl⟩
    · intro id hsome
      obtain ⟨ct, hct⟩ := isSome_iff_exists.mp hsome
      rcases newConn_eq_some hct with ⟨rfl, -⟩ | ⟨-, hwas⟩
      · exact Nat.lt_succ_self _
      · exact Nat.lt_succ_of_lt (h.below id (isSome_iff_exists.mpr ⟨ct, hwas⟩))
    · intro id ct master hct hnot hmaster
      rcases newConn_eq_some hct with ⟨-, rfl⟩ | ⟨-, hwas⟩
      · cases hmaster
      · obtain ⟨hlt, hmem⟩ := h.masters id ct master hwas hnot hmaster
        exact ⟨hlt, mem_cons_of_mem _ hmem⟩
    · intro e he
      obtain ⟨hsome, hnot⟩ := h.expects e he
      exact ⟨hlive e.master hsome, hnot⟩
    · rintro id ⟨⟩
    · intro e he
      exact ne_of_lt (h.below e.master (h.expects e he).1)

theorem Sound.pick (id : Nat) : Sound outside [] (pick id s) := by
  rw [Conntrack.pick]
  split
  · exact h
  · exact h.limits _ _ _

/-- Evicting from a chain of the table keeps the state sound. -/
theorem Sound.earlyDrop (slot : Fin n) : Sound outside [] (earlyDrop slot s).2 := by
  rw [Conntrack.earlyDrop]
  split
  · exact h
  next found hfound =>
    apply h.drop
    apply isSome_of_flag (h.hashed found _)
    exact mem_entries.mpr ⟨slot, mem_reverse.mp (mem_of_find?_eq_some hfound)⟩

/-- Evicting from the list keeps the state sound. -/
theorem Sound.regardlessDrop : Sound outside [] (regardlessDrop s).2 := by
  rw [Conntrack.regardlessDrop]
  split
  · exact h
  next id _ hlist =>
    apply (h.pick id).drop
    have hmem : id ∈ s.safeList := hlist ▸ mem_cons_self
    have hlive := isSome_of_flag ((h.listed id).mp hmem)
    rw [Conntrack.pick]
    split <;> exact hlive

/-- An allocation, with the evictions that make room for it, gives a fresh connection or is
refused. -/
theorem Sound.nfConntrackAlloc (env : Env τ n) (orig repl : τ) (room : Bool) :
    Allocated orig repl outside (nfConntrackAlloc env orig repl room s) := by
  have hcount := h.limits (s.count + 1) s.max s.misjudged
  have hearly := hcount.earlyDrop (env.hash orig)
  rw [Conntrack.nfConntrackAlloc]
  split
  · split
    next s' heq =>
      rw [heq] at hearly
      exact hearly.newConn orig repl room
    next s' heq =>
      rw [heq] at hearly
      have hregardless := hearly.regardlessDrop
      split
      next t heq' =>
        rw [heq'] at hregardless
        exact hregardless.newConn orig repl room
      next t heq' =>
        rw [heq'] at hregardless
        exact hregardless.limits _ _ _
  · exact hcount.newConn orig repl room

end

/-- A connection that is in the list need not be excepted. -/
theorem Sound.narrow {dying : List Nat} (h : Sound (id :: outside) dying s)
    (hid : ∀ ct, s.conns id = some ct → ct.safeList = true) : Sound outside dying s := by
  refine { h with apart := ?_ }
  intro other ct hct hnot
  rcases mem_cons.mp (h.apart other ct hct hnot) with rfl | hmem
  · rw [hid ct hct] at hnot
    cases hnot
  · exact hmem

section

variable (h : Sound (id :: outside) [] s) (hfresh : Fresh orig repl id s)
include h hfresh

theorem Sound.abandon : Sound outside [] (abandon id s) := by
  have hreleased := h.release hfresh.held nofun
  have hct : (Conntrack.release .skb id s).conns id
      = some { Conn.allocated orig repl with use := 0 } := by
    refine (modify_self s id _).trans ?_
    rw [hfresh.conn]
    rfl
  have hfreed := (hreleased.destroy hct rfl hfresh.expects).free not_mem_nil
  apply hfreed.narrow
  intro ct hnone
  rw [free_self] at hnone
  cases hnone

/-- A connection that is linked at the tail need not be excepted any more. -/
theorem Sound.listAddTail : Sound outside [] (listAddTail id s) := by
  have hunlisted : id ∉ s.safeList := by
    rw [h.listed, flag_of_some hfresh.conn]
    exact Bool.false_ne_true
  have hself : (Conntrack.listAddTail id s).conns id
      = some { Conn.allocated orig repl with safeList := true } := by
    refine (modify_self s id _).trans ?_
    rw [hfresh.conn]
    rfl
  have hother (other : Nat) (hne : other ≠ id) :
      (Conntrack.listAddTail id s).conns other = s.conns other :=
    modify_other s _ hne
  have hsome (other : Nat) :
      ((Conntrack.listAddTail id s).conns other).isSome = (s.conns other).isSome :=
    isSome_modify s id other _
  have hwide : Sound (id :: outside) [] (Conntrack.listAddTail id s) := by
    refine ⟨h.ordered.append hunlisted, ?_, ?_, ?_, ?_, ?_, ?_, ?_, ?_, ?_, ?_⟩
    · intro other
      show other ∈ s.safeList ++ [id] ↔ _
      rw [mem_append, mem_singleton]
      by_cases hne : other = id
      · rw [hne, flag_of_some hself]
        simp
      · rw [State.flag, hother other hne]
        exact (or_iff_left hne).trans (h.listed other)
    · intro other ct hct hnot
      obtain ⟨was, hwas, rfl⟩ := modify_eq_some hct
      split at hnot
      · cases hnot
      · exact h.apart other was hwas hnot
    · intro e he
      have hflag : (Conntrack.listAddTail id s).flag Conn.timeout e.1 = s.flag Conn.timeout e.1 :=
        flag_modify (f := fun ct => { ct with safeList := true }) (fun _ => rfl) e.1
      exact hflag.trans (h.hashed e he)
    · intro other ct hct
      obtain ⟨was, hwas, rfl⟩ := modify_eq_some hct
      have hwaiting := h.waiting other was hwas
      split <;> exact hwaiting
    · intro other ct hct
      obtain ⟨was, hwas, rfl⟩ := modify_eq_some hct
      have hcount := h.counted other was hwas
      split <;> exact hcount
    · exact fun r hr => (hsome r.2).trans (h.held r hr)
    · exact fun other hlive => h.below other ((hsome other).symm.trans hlive)
    · intro other ct master hct hnot hof
      obtain ⟨was, hwas, rfl⟩ := modify_eq_some hct
      apply h.masters other was master hwas hnot
      split at hof <;> exact hof
    · intro e he
      exact ⟨(hsome e.master).trans (h.expects e he).1, not_mem_nil⟩
    · rintro other ⟨⟩
  apply hwide.narrow
  intro ct hct
  rw [hself] at hct
  rw [← some.inj hct]

end

theorem Sound.adopt (h : Sound outside [] s) {master : Nat}
    (hmaster : (s.conns master).isSome) (hlt : master < id) :
    Sound outside [] (Conntrack.hold (.child id) master
      (s.modify id (fun ct => { ct with expected := true, master := some master }))) := by
  have hswap : Conntrack.hold (.child id) master
      (s.modify id (fun ct => { ct with expected := true, master := some master }))
      = (Conntrack.hold (.child id) master s).modify id
        (fun ct => { ct with expected := true, master := some master }) := by
    have hne : master ≠ id := ne_of_lt hlt
    simp only [Conntrack.hold, State.modify, update_of_ne hne,
      update_of_ne hne.symm, update_comm hne]
  rw [hswap]
  have hheld := h.hold hmaster not_mem_nil (.child id)
  apply hheld.recount
  · exact fun _ => rfl
  · intro ct other hof
    obtain rfl := some.inj hof
    exact .inr ⟨hlt, mem_cons_self⟩
  · exact fun _ _ ht => ht
  · exact fun _ hwas hnow => hwas hnow
  · exact fun ct hct => hheld.counted id ct hct
  · exact fun _ _ => rfl
  · exact fun _ hr => .inl hr
  · exact fun _ _ hr _ => hr
  · exact not_mem_nil

end Alloc

/-! ### Packets -/

section

variable (h : Sound outside [] s)
include h

/-- The handler of the protocol leaves the packet its connection, and the list and the history as
they were. -/
theorem Sound.l4Packet (p : Packet τ) (hheld : (.skb, id) ∈ s.refs) :
    Sound outside [] (l4Packet p id s) ∧ (.skb, id) ∈ (l4Packet p id s).refs ∧
      (l4Packet p id s).flag Conn.safeList id = s.flag Conn.safeList id ∧
      (l4Packet p id s).history = s.history := by
  have hassured := h.modify id
    (f := fun ct => { ct with assured := ct.assured || p.assures })
    (fun _ => rfl) (fun _ => rfl) (fun _ => rfl) (fun _ => rfl) (fun _ => rfl)
  have hflag : (s.modify id (fun ct => { ct with assured := ct.assured || p.assures })).flag
      Conn.safeList id = s.flag Conn.safeList id :=
    flag_modify (f := fun ct => { ct with assured := ct.assured || p.assures }) (fun _ => rfl) id
  rw [Conntrack.l4Packet]
  split
  next hcloses =>
    have hdead := hassured.deathByTimeout hcloses.2
    have hstill := mem_refs_deathByTimeout id (s := s.modify id
      (fun ct => { ct with assured := ct.assured || p.assures })) hheld
    refine ⟨hdead, hstill, ?_, deathByTimeout_history id _⟩
    obtain ⟨ct, hct⟩ := isSome_iff_exists.mp (hdead.held _ hstill)
    obtain ⟨was, hwas, hsame⟩ := deathByTimeout_eq_some hct
    rw [flag_of_some hct, hsame, ← hflag, flag_of_some hwas]
  · exact ⟨hassured, hheld, hflag, rfl⟩

theorem Sound.listMoveTail (id : Nat) : Sound outside [] (listMoveTail id s) := by
  rw [Conntrack.listMoveTail]
  split
  next hlink =>
    have hmem := (h.listed id).mpr hlink
    refine { h with ordered := h.ordered.refresh id, listed := ?_ }
    intro other
    refine Iff.trans ?_ (h.listed other)
    rw [mem_append, mem_singleton, h.ordered.nodup.mem_erase_iff]
    constructor
    · rintro (⟨-, hin⟩ | rfl)
      · exact hin
      · exact hmem
    · intro hin
      by_cases hne : other = id
      · exact .inr hne
      · exact .inl ⟨hne, hin⟩
  · exact { h with }

/-- The way of a packet once its connection is known. -/
theorem Sound.track (p : Packet τ) (info : CtInfo)
    (hheld : (.skb, id) ∈ s.refs) : Sound outside [] (track p id info s).2 := by
  obtain ⟨hpacket, hstill, -, -⟩ := h.l4Packet p hheld
  rw [Conntrack.track]
  split
  · exact hpacket.put hstill nofun
  have hreply : Sound outside [] (setSeenReply info id (Conntrack.l4Packet p id s)) := by
    rw [setSeenReply]
    split
    · exact hpacket.modify id (fun _ => rfl) (fun _ => rfl) (fun _ => rfl)
        (fun _ => rfl) (fun _ => rfl)
    · exact hpacket
  split
  · exact hreply.listMoveTail id
  · exact hreply

theorem Sound.hashInsert (env : Env τ n) (hpending : s.flag Conn.timeout id = true) :
    Sound outside [] (nfConntrackHashInsert env id ct s) := by
  refine { h with hashed := ?_ }
  intro e he
  rcases mem_entries_insert.mp he with rfl | hrest
  · exact hpending
  rcases mem_entries_insert.mp hrest with rfl | hold
  · exact hpending
  · exact h.hashed e hold

/-- A connection that a request creates is not linked and has to be excepted. -/
theorem Sound.ctnetlinkCreate (env : Env τ n) (r : Request τ) :
    ∃ id, Sound (id :: outside) [] (ctnetlinkCreateConntrack env r s) := by
  have halloc := h.nfConntrackAlloc env r.otuple r.rtuple r.room
  rw [ctnetlinkCreateConntrack]
  split
  next id t heq =>
    rw [heq] at halloc
    obtain ⟨hsound, hfresh⟩ := halloc
    split
    · refine ⟨id, ?_⟩
      have hunlisted : id ∉ t.safeList := by
        rw [hsound.listed, flag_of_some hfresh.conn]
        exact Bool.false_ne_true
      have hstarted : Sound (id :: outside) []
          { t.modify id (fun ct =>
              { changeStatus r ct with confirmed := true, timeout := true }) with
            refs := t.refs.erase (.skb, id) } := by
        apply hsound.recount
        · exact fun _ => rfl
        · exact fun _ _ hof => .inl hof
        · exact fun _ _ _ => rfl
        · nofun
        · intro ct hct
          have hcount := hsound.counted id ct hct
          have herase := refCount_erase_self hfresh.held
          obtain rfl := some.inj (hfresh.conn.symm.trans hct)
          show 1 = refCount id (t.refs.erase (.skb, id)) + 1
          have hone : 1 = refCount id t.refs + 0 := hcount
          omega
        · exact fun other hne => refCount_erase_other .skb t.refs hne
        · exact fun _ hr => .inl (mem_of_mem_erase hr)
        · intro c master hr _
          apply (mem_erase_of_ne _).mpr hr
          nofun
        · exact not_mem_nil
      simp only
      split
      next hnone =>
        rw [modify_self, hfresh.conn] at hnone
        cases hnone
      apply Sound.hashInsert (s := State.touch id { t.modify id (fun ct =>
          { changeStatus r ct with confirmed := true, timeout := true }) with
        refs := t.refs.erase (.skb, id) }) _ env
      · exact flag_modify_self hfresh.conn
      · exact { hstarted with ordered := hstarted.ordered.use_other hunlisted }
    · exact ⟨0, (hsound.abandon hfresh).widen 0⟩
  next result t hmade heq =>
    rw [heq] at halloc
    exact ⟨0, (halloc.refused hmade).widen 0⟩

end

structure Carried (id : Nat) (s : State τ n) : Prop where
  held : (.skb, id) ∈ s.refs
  unseen : s.flag Conn.seenReply id = false

/-- What `init_conntrack` leaves: a connection in the list, or none. -/
def Initiated (outside : List Nat) : Alloc × State τ n → Prop
  | (.made id, s) => Sound outside [] s ∧ Carried id s
  | (_, s) => Sound outside [] s

theorem Initiated.sound {result : Alloc × State τ n} (h : Initiated outside result) :
    Sound outside [] result.2 := by
  obtain ⟨result, t⟩ := result
  cases result with
  | null => exact h
  | enomem => exact h
  | made id => exact h.1

section Lookups
variable [DecidableEq τ] {orig repl : τ}

/-- No expectation is found, or one of those there are, of which some may then be removed. -/
theorem findExpectation_cases (env : Env τ n) (tuple : τ) (s : State τ n) :
    findExpectation env tuple s = (none, s) ∨
      ∃ e ∈ s.expects, ∃ expects : List (Expect τ), (∀ other ∈ expects, other ∈ s.expects) ∧
        findExpectation env tuple s = (some e, { s with expects := expects }) := by
  rw [findExpectation]
  split
  · exact .inl rfl
  next e hfound =>
    have hmem := mem_of_find?_eq_some hfound
    split
    · split
      · exact .inr ⟨e, hmem, s.expects, fun _ ho => ho, rfl⟩
      · exact .inr ⟨e, hmem, s.expects.erase e, fun _ ho => mem_of_mem_erase ho, rfl⟩
    · exact .inl rfl

theorem Sound.welcome (h : Sound (id :: outside) [] s) (hfresh : Fresh orig repl id s)
    (env : Env τ n) (tuple : τ) :
    Sound outside [] (welcome env tuple id s) ∧ Carried id (welcome env tuple id s) := by
  have hadded := h.listAddTail hfresh
  have hunseen : (Conntrack.listAddTail id s).flag Conn.seenReply id = false := by
    have hkept : (Conntrack.listAddTail id s).flag Conn.seenReply id = s.flag Conn.seenReply id :=
      flag_modify (f := fun ct => { ct with safeList := true }) (fun _ => rfl) id
    rw [hkept, flag_of_some hfresh.conn]
    rfl
  rw [Conntrack.welcome]
  rcases findExpectation_cases env tuple (Conntrack.listAddTail id s) with hnone |
    ⟨e, he, expects, hsub, hsome⟩
  · rw [hnone]
    exact ⟨hadded, hfresh.held, hunseen⟩
  rw [hsome]
  have hlive := (hadded.expects e he).1
  have hlt : e.master < id := by
    have hbelow := hadded.below e.master hlive
    have hne := hfresh.expects e he
    have hnext : (Conntrack.listAddTail id s).next = id + 1 := hfresh.next
    omega
  have hforgot := hadded.forget (fun _ hmem => hmem) hsub
  refine ⟨hforgot.adopt hlive hlt, mem_cons_of_mem _ hfresh.held, ?_⟩
  have hmaster (t : State τ n) :
      (t.modify id (fun ct => { ct with expected := true, master := some e.master })).flag
        Conn.seenReply id = t.flag Conn.seenReply id :=
    flag_modify (f := fun ct => { ct with expected := true, master := some e.master })
      (fun _ => rfl) id
  have hheld (t : State τ n) :
      (Conntrack.hold (.child id) e.master t).flag Conn.seenReply id = t.flag Conn.seenReply id :=
    flag_modify (f := fun ct => { ct with use := ct.use + 1 }) (fun _ => rfl) id
  exact (hheld _).trans ((hmaster _).trans hunseen)

section

variable (h : Sound outside [] s)
include h

/-- The connection of a first packet is linked and carried by the packet, or refused. -/
theorem Sound.initConntrack (env : Env τ n) (tuple : τ)
    (p : Packet τ) : Initiated outside (initConntrack env tuple p s) := by
  rw [Conntrack.initConntrack]
  split
  · exact h
  next repl _ =>
    have halloc := h.nfConntrackAlloc env tuple repl p.room
    split
    next id t heq =>
      rw [heq] at halloc
      obtain ⟨hsound, hfresh⟩ := halloc
      split
      · exact hsound.welcome hfresh env tuple
      · exact hsound.abandon hfresh
    next result t hmade heq =>
      rw [heq] at halloc
      have hsound := halloc.refused hmade
      cases result with
      | made id => exact absurd rfl (hmade id)
      | enomem => exact hsound
      | null => exact hsound

theorem Sound.find (hfind : nfConntrackFind env tuple s = some (id, dir)) : (s.conns id).isSome :=
  isSome_of_flag (h.hashed (id, dir) (mem_entries.mpr ⟨_, mem_of_find?_eq_some hfind⟩))

theorem Sound.confirm (env : Env τ n) (dir : Dir) (id : Nat) :
    Sound outside [] (nfConntrackConfirm env dir id s).2 := by
  rw [nfConntrackConfirm]
  split
  · exact h
  next ct hct =>
    split
    · exact h
    next hconfirmed =>
      split
      · exact h
      have hwaiting : ct.timeout = false := by
        apply h.waiting id ct hct
        rw [← Bool.not_eq_true]
        exact fun hset => hconfirmed (.inl hset)
      have hstarted : Sound outside [] (s.modify id (fun ct =>
          { ct with timeout := true, use := ct.use + 1, confirmed := true })) := by
        apply h.recount
        · exact fun _ => rfl
        · exact fun _ _ hof => .inl hof
        · exact fun _ _ _ => rfl
        · nofun
        · intro was hwas
          obtain rfl := some.inj (hct.symm.trans hwas)
          have hcount := h.counted id ct hct
          rw [hwaiting] at hcount
          exact congrArg (· + 1) hcount
        · exact fun _ _ => rfl
        · exact fun _ hr => .inl hr
        · exact fun _ _ hr _ => hr
        · exact not_mem_nil
      apply hstarted.hashInsert env
      exact flag_modify_self hct

theorem Sound.newConntrack (env : Env τ n) (r : Request τ) :
    ∃ id, Sound (id :: outside) [] (ctnetlinkNewConntrack env r s) := by
  rw [ctnetlinkNewConntrack]
  split
  · split
    · exact h.ctnetlinkCreate env r
    · exact ⟨0, h.widen 0⟩
  next id _ _ =>
    split
    · exact ⟨0, h.widen 0⟩
    have hchanged := h.modify id (f := changeStatus r) (fun _ => rfl) (fun _ => rfl)
      (fun _ => rfl) (fun _ => rfl) (fun _ => rfl)
    exact ⟨0, hchanged.widen 0⟩

end

section

variable {p : Packet τ}

/-- A packet of a known connection takes a reference and goes its way. -/
theorem nfConntrackIn_found (htuple : p.tuple = some tuple)
    (hfind : nfConntrackFind env tuple s = some (id, dir)) (hct : s.conns id = some ct) :
    nfConntrackIn env p s = track p id (ctInfo dir ct) (hold .skb id s) := by
  have hheld : (hold .skb id s).conns id = some { ct with use := ct.use + 1 } := by
    refine (modify_self s id _).trans ?_
    rw [hct]
    rfl
  simp only [nfConntrackIn, resolveNormalCt, htuple, hfind, hheld]
  rfl

theorem nfConntrackIn_new
    (htuple : p.tuple = some tuple) (hfind : nfConntrackFind env tuple s = none) :
    (nfConntrackIn env p s).2 = (initConntrack env tuple p s).2 ∨
      ∃ id t ct, initConntrack env tuple p s = (.made id, t) ∧ t.conns id = some ct ∧
        nfConntrackIn env p s = track p id (ctInfo .original ct) t := by
  simp only [nfConntrackIn, resolveNormalCt, htuple, hfind]
  cases initConntrack env tuple p s with
  | mk result t =>
    cases result with
    | null => exact .inl rfl
    | enomem => exact .inl rfl
    | made id =>
      cases hct : t.conns id with
      | none => simp only [hct, true_or]
      | some ct =>
        refine .inr ⟨id, t, ct, rfl, hct, ?_⟩
        simp only [hct]

theorem nfConntrackIn_untracked (htuple : p.tuple = none) : (nfConntrackIn env p s).2 = s := by
  simp only [nfConntrackIn, resolveNormalCt, htuple]

end

section

variable (h : Sound outside [] s) (env : Env τ n)
include h

/-- Every packet keeps the state sound, tracked or not. -/
theorem Sound.nfConntrackIn (p : Packet τ) : Sound outside [] (nfConntrackIn env p s).2 := by
  cases htuple : p.tuple with
  | none =>
    rw [nfConntrackIn_untracked htuple]
    exact h
  | some tuple =>
    cases hfind : nfConntrackFind env tuple s with
    | some found =>
      have hlive := h.find hfind
      obtain ⟨ct, hct⟩ := isSome_iff_exists.mp hlive
      rw [nfConntrackIn_found htuple hfind hct]
      exact (h.hold hlive not_mem_nil .skb).track p _ mem_cons_self
    | none =>
      have hinit := h.initConntrack env tuple p
      rcases nfConntrackIn_new htuple hfind with hsame | ⟨id, t, ct, heq, -, htrack⟩
      · rw [hsame]
        exact hinit.sound
      · rw [heq] at hinit
        rw [htrack]
        exact hinit.1.track p _ hinit.2.held

/-- The invariant of one event, other than a request to make a connection. -/
theorem Sound.act {e : Event τ} (hpossible : e.Possible s) (hmade : ∀ r, e ≠ .newConntrack r) :
    Sound outside [] (act env s e) := by
  have hlive (id : Nat) (hin : (.skb, id) ∈ s.refs ∨ Hashed id s) : (s.conns id).isSome := by
    rcases hin with hheld | ⟨dir, hmem⟩
    · exact h.held _ hheld
    · exact isSome_of_flag (h.hashed _ hmem)
  cases e with
  | packet p => exact h.nfConntrackIn env p
  | confirm id dir => exact h.confirm env dir id
  | alterReply id newreply =>
    exact h.modify id (fun _ => rfl) (fun _ => rfl) (fun _ => rfl) (fun _ => rfl) (fun _ => rfl)
  | get id => exact h.hold (hlive id hpossible) not_mem_nil .skb
  | put id => exact h.put hpossible nofun
  | timeout id => exact h.deathByTimeout hpossible
  | cleanup id => exact h.drop (hlive id hpossible)
  | expect e =>
    refine { h with expects := ?_ }
    exact forall_mem_cons.mpr ⟨⟨h.held _ hpossible, not_mem_nil⟩, h.expects⟩
  | unexpect e =>
    exact h.forget (fun _ hmem => hmem) (fun _ hmem => mem_of_mem_erase hmem)
  | newConntrack r => exact absurd rfl (hmade r)
  | sysctl max => exact h.limits _ _ _

/-- One event keeps the state sound; a request may add a connection that is excepted. -/
theorem Sound.step (e : Event τ) : ∃ outside, Sound outside [] (step env e s) := by
  rw [Conntrack.step]
  split
  next hpossible =>
    cases e with
    | newConntrack r =>
      obtain ⟨id, hsound⟩ := h.newConntrack env r
      exact ⟨id :: outside, hsound⟩
    | _ => exact ⟨outside, h.act env hpossible.2 nofun⟩
  · exact ⟨outside, h⟩

end

end Lookups

end EchoLife.Netfilter.Conntrack
