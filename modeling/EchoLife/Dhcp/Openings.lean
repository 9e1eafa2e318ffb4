import EchoLife.Dhcp.AutomaticAcl

/-!
Which gateways the rules of the DHCP client are for, over a history of ACKs. The client takes the
gateway from the temporary file, where it stays when an ACK has none, and otherwise the gateways
noted from routes, where entries of an older ACK stay behind those of the last one.
-/

namespace EchoLife.Dhcp.Client

open Distinct List Run Text

def Ack.routeGateways (ack : Ack) : List Address :=
  firstDistinct icmpDhcpAutoaclMax (used ((ack.routes.getD []).map Route.router))

/-- The router of the ACK, if it has one, or else the gateways of its routes. The address zero
stands for none. -/
def Ack.announced (ack : Ack) : List Address :=
  match ack.routerAddress.filter (fun x => x ≠ anyAddress) with
  | some x => [x]
  | none => ack.routeGateways

def State.saved (s : State) : Option Address :=
  s.gwItem.bind inetAton

def State.noted (s : State) : List Address :=
  s.gGwIp.filterMap inetAton

/-- The gateways noted after an ACK: those of its static routes, then what is left of the others.
An option that is not read leaves them alone. -/
def Ack.listed (ack : Ack) (noted : List Address) : List Address :=
  if ack.read then
    firstDistinct icmpDhcpAutoaclMax (gatewaysOf ack.entries) ++
      noted.drop (firstDistinct icmpDhcpAutoaclMax (gatewaysOf ack.entries)).length
  else noted

/-- The default gateway of the ACK, or else the saved one, is the only gateway announced; or there
is none, and those noted then are announced. -/
def Opens (ack : Ack) (s : State) : Prop :=
  match (ack.gateway.or s.saved).filter (fun x => x ≠ anyAddress) with
  | some x => ack.announced = [x]
  | none => ack.announced.Perm (ack.listed s.noted)

/-! ### What the client remembers -/

def slots (noted : List Address) : List (List UInt8) :=
  noted.map Address.text ++ List.replicate (icmpDhcpAutoaclMax - noted.length) []

structure Remembers (s : State) (saved : Option Address) (noted : List Address) : Prop where
  gwItem_eq : s.gwItem = saved.map Address.text
  gGwIp_eq : s.gGwIp = slots noted
  length_le : noted.length ≤ icmpDhcpAutoaclMax
  not_any : anyAddress ∉ noted

variable {noted : List Address} {s : State} {saved : Option Address} {ack : Ack}

theorem length_slots (h : noted.length ≤ icmpDhcpAutoaclMax) :
    (slots noted).length = icmpDhcpAutoaclMax := by
  rw [slots, length_append, length_map, length_replicate]
  omega

section
variable (h : Remembers s saved noted)
include h

theorem Remembers.saved_eq : s.saved = saved := by
  rw [State.saved, h.gwItem_eq]
  cases saved with
  | none => rfl
  | some x => exact inetAton_text x

theorem Remembers.noted_eq : s.noted = noted := by
  have hread : noted.filterMap (inetAton ∘ Address.text) = noted := by
    have hsome : inetAton ∘ Address.text = some := funext inetAton_text
    rw [hsome, filterMap_some]
  rw [State.noted, h.gGwIp_eq, slots, filterMap_append, filterMap_map, hread,
    filterMap_replicate_of_none rfl, append_nil]

theorem Remembers.used_table : used (s.gGwIp.map (fun text =>
      if text = [] then anyAddress else (inetAton text).getD anyAddress)) = noted := by
  have hread : ∀ x : Address,
      (if x.text = [] then anyAddress else (inetAton x.text).getD anyAddress) = x := by
    intro x
    rw [if_neg x.text_ne_nil, inetAton_text, Option.getD_some]
  have hused : used noted = noted := by
    apply filter_eq_self.mpr
    intro x hx
    simpa using ne_of_mem_of_not_mem hx h.not_any
  rw [h.gGwIp_eq, slots, map_append, map_map, map_replicate, if_pos rfl]
  simp only [Function.comp_def, hread, map_id']
  rw [used, filter_append, filter_replicate_of_neg (by simp), append_nil]
  exact hused

theorem Remembers.used_curServerAddr :
    used (curServerAddr s) =
      match saved.filter (fun x => x ≠ anyAddress) with
      | some x => [x]
      | none => noted := by
  unfold curServerAddr
  rw [h.gwItem_eq]
  cases saved with
  | none =>
    exact h.used_table
  | some x =>
    simp only [Option.map_some, Option.getD_some, inetAton_text, Option.filter_some]
    by_cases hany : x = anyAddress
    · rw [if_neg (by simp [hany]), if_neg (by simpa using hany)]
      exact h.used_table
    rw [if_pos ⟨x.text_ne_nil, fun htext => hany (Address.text_injective htext)⟩,
      if_pos (by simpa using hany)]
    rw [used, filter_cons_of_pos (by simpa using hany), filter_replicate_of_neg (by simp)]

end

/-! ### What an ACK changes -/

private theorem foldl_note_slots (h : noted.length ≤ icmpDhcpAutoaclMax) (gateways : List Address) :
    ((gateways.map Address.text).foldl (note icmpDhcpAutoaclMax) (slots noted, 0)).1 =
      slots (firstDistinct icmpDhcpAutoaclMax gateways ++
        noted.drop (firstDistinct icmpDhcpAutoaclMax gateways).length) := by
  rw [foldl_note (length_slots h), firstDistinct_map Address.text_injective, filled]
  simp only [slots, length_map, map_append, map_drop, drop_append,
    drop_replicate, length_append, length_drop, append_assoc]
  congr 3
  omega

theorem any_not_mem_gatewaysOf (entries : List Entry) : anyAddress ∉ gatewaysOf entries := by
  simp [gatewaysOf]

theorem Remembers.handleAck (h : Remembers s saved noted) (hrecorded : Recorded s) (ack : Ack) :
    Remembers (handleAck ack s) (ack.gateway.or saved) (ack.listed noted) := by
  have hitem : (ack.gateway.map Address.text).or s.gwItem =
      (ack.gateway.or saved).map Address.text := by
    rw [h.gwItem_eq, Option.map_or]
  unfold Ack.listed
  cases hread : ack.read with
  | true =>
    have hle := length_firstDistinct_le icmpDhcpAutoaclMax (gatewaysOf ack.entries)
    have hlength := h.length_le
    rw [handleAck_of_read hread hrecorded]
    refine ⟨?_, ?_, ?_, ?_⟩
    · rw [saveGateway_eq, hitem]
    · rw [saveGateway_gGwIp, h.gGwIp_eq, foldl_note_slots h.length_le]
      rfl
    · rw [if_pos rfl, length_append, length_drop]
      omega
    · rw [if_pos rfl, mem_append, not_or]
      exact ⟨fun hmem => any_not_mem_gatewaysOf _ (mem_of_mem_firstDistinct hmem),
        fun hmem => h.not_any (mem_of_mem_drop hmem)⟩
  | false =>
    rw [handleAck_of_not_read hread hrecorded.staticRoute_eq, if_neg Bool.false_ne_true]
    refine ⟨?_, ?_, h.length_le, h.not_any⟩
    · rw [saveGateway_eq, hitem]
    · rw [saveGateway_gGwIp, h.gGwIp_eq]

/-! ### Histories of ACKs -/

structure Tidy (f : Firewall) : Prop where
  kept : Kept f
  recorded : Recorded f.client
  remembers : ∃ saved noted, Remembers f.client saved noted

section
variable {f : Firewall} (h : Tidy f) (ack : Ack)
include h

theorem Tidy.kept_handleRoutes : Kept (handleRoutes ack f) := by
  obtain ⟨saved, noted, hremembers⟩ := h.remembers
  have hnext := hremembers.handleAck h.recorded ack
  refine ⟨⟨h.kept.sized.length_pre, ?_⟩, h.kept.rules_perm⟩
  exact hnext.gGwIp_eq ▸ length_slots hnext.length_le

theorem Tidy.handleLease : Tidy (handleLease ack f) := by
  obtain ⟨saved, noted, hremembers⟩ := h.remembers
  have hkept := h.kept_handleRoutes ack
  obtain ⟨hrules, hpre⟩ := hkept.run_automaticAclDhcp
  have hclient : (Client.handleLease ack f).client = Client.handleAck ack f.client :=
    run_perform_client _ _
  refine ⟨⟨⟨?_, ?_⟩, ?_⟩, ?_, ?_⟩
  · exact hpre ▸ hkept.sized.length_cur
  · rw [hclient]
    exact hkept.sized.length_gGwIp
  · rw [Client.handleLease, hrules, hpre]
    exact reverse_perm _
  · rw [hclient]
    exact h.recorded.handleAck ack
  · rw [hclient]
    exact ⟨_, _, hremembers.handleAck h.recorded ack⟩

theorem Tidy.rules_perm_announced_iff :
    (Client.handleLease ack f).rules.Perm ack.announced ↔ Opens ack f.client := by
  obtain ⟨saved, noted, hremembers⟩ := h.remembers
  have hrules := (h.kept_handleRoutes ack).run_automaticAclDhcp.1
  have hcur := (hremembers.handleAck h.recorded ack).used_curServerAddr
  change used (curServerAddr (handleRoutes ack f).client) = _ at hcur
  rw [Client.handleLease, hrules, hcur, (reverse_perm _).congr_left]
  unfold Opens
  rw [hremembers.saved_eq, hremembers.noted_eq]
  cases (ack.gateway.or saved).filter (fun x => x ≠ anyAddress) with
  | none => exact perm_comm
  | some x => exact perm_comm.trans perm_singleton

end

/-- An ACK with a router suits, unless a route of width zero names another gateway. -/
theorem opens_of_router {x : Address} (hrouter : ack.routerAddress = some x) (hx : x ≠ anyAddress)
    (hzero : ack.read = true → ack.zeroWidth = none ∨ ack.zeroWidth = some x) (s : State) :
    Opens ack s := by
  have hgateway : ack.gateway = some x := by
    unfold Ack.gateway
    split
    next hread =>
      rcases hzero hread with hnone | hsame
      · rw [hnone, Option.none_or, hrouter]
      · rw [hsame, Option.some_or]
    · exact hrouter
  have hused : (some x).filter (fun x => x ≠ anyAddress) = some x := by
    simp [Option.filter, hx]
  unfold Opens
  rw [hgateway, Option.some_or, hused]
  unfold Ack.announced
  rw [hrouter, hused]

private theorem gatewaysOf_entries (hzero : ack.zeroWidth = none) :
    gatewaysOf ack.entries = used ((ack.routes.getD []).map Route.router) := by
  have hnone : (ack.routes.getD []).filter (fun r => r.width = 0) = [] := by
    simpa [Ack.zeroWidth, zeroWidth] using hzero
  have hall : (ack.routes.getD []).filter (fun r => r.width ≠ 0) = ack.routes.getD [] := by
    apply filter_eq_self.mpr
    intro r hr
    simpa using filter_eq_nil_iff.mp hnone r hr
  rw [gatewaysOf, Ack.entries, staticEntries, hall, map_map]
  rfl

/-- An ACK with routes only suits if its option is read, none has width zero, no default gateway
was saved before, and no more gateways are noted than it has. -/
theorem opens_of_routes (hrouter : ack.routerAddress = none) (hread : ack.read = true)
    (hzero : ack.zeroWidth = none) (hsaved : s.saved = none)
    (hcount : s.noted.length ≤ ack.routeGateways.length) : Opens ack s := by
  have hgateway : ack.gateway = none := by
    rw [Ack.gateway, if_pos hread, hzero, hrouter, Option.none_or]
  have hannounced : ack.announced = ack.routeGateways := by
    unfold Ack.announced
    rw [hrouter]
    rfl
  have hlisted : ack.listed s.noted = ack.routeGateways := by
    have hdrop := drop_eq_nil_of_le hcount
    rw [Ack.listed, if_pos hread, gatewaysOf_entries hzero]
    unfold Ack.routeGateways at hdrop ⊢
    rw [hdrop, append_nil]
  unfold Opens
  rw [hgateway, hsaved, hannounced, hlisted]
  exact List.Perm.refl _

/-- Over any ACKs, the rules after each are one for each gateway it announces, exactly if each
suits what the client remembers. Whenever the signal arrives, no rule is left exactly if the
moment is safe: outside of the function, or inside unless a rule was inserted for a gateway that
is not in the array yet. -/
theorem openings_follow_lease_iff (f : Firewall) (h : Tidy f) (acks : List Ack) :
    (Allowed handleLease (fun ack f => (handleLease ack f).rules.Perm ack.announced) acks f ↔
        Allowed handleLease (fun ack f => Opens ack f.client) acks f) ∧
      ∀ m : Moment, NoneRemains m (run handleLease acks f) ↔ Safe m (run handleLease acks f) := by
  constructor
  · apply Allowed.iff_of_invariant (P := Tidy)
    · intro ack g hg
      exact hg.rules_perm_announced_iff ack
    · intro ack g hg _
      exact hg.handleLease ack
    · exact h
  · intro m
    have hrun : Tidy (run handleLease acks f) :=
      run_invariant (fun ack _ g hg => hg.handleLease ack) h
    exact noneRemains_iff hrun.kept (fun ack => (hrun.kept_handleRoutes ack).sized) m

def idle : Firewall where
  client := boot
  preServerAddr := List.replicate icmpDhcpAutoaclMax anyAddress
  rules := []
  icmpAcl := []

theorem idle_tidy : Tidy idle := by
  have hremembers : Remembers boot none [] := ⟨rfl, rfl, Nat.zero_le _, not_mem_nil⟩
  exact ⟨⟨⟨rfl, rfl⟩, List.Perm.refl _⟩, boot_recorded, none, [], hremembers⟩

def routerAck : Ack :=
  ⟨none, some ⟨4, CString.buffer [10, 0, 0, 1]⟩, plainAck.length_le⟩

def routeAck : Ack :=
  ⟨some [officeRoute], none, by decide⟩

theorem routes_then_router_opened :
    Allowed handleLease (fun ack f => (handleLease ack f).rules.Perm ack.announced)
        [routeAck, routerAck] idle ∧
      NoneRemains (.outside boot) (run handleLease [routeAck, routerAck] idle) := by
  have hroute : Opens routeAck idle.client :=
    opens_of_routes rfl rfl rfl rfl (Nat.zero_le _)
  have hrouter : Opens routerAck (handleLease routeAck idle).client :=
    opens_of_router rfl (by decide) (fun _ => .inl rfl) _
  obtain ⟨hrules, hsignal⟩ := openings_follow_lease_iff idle idle_tidy [routeAck, routerAck]
  exact ⟨hrules.mpr ⟨hroute, hrouter, trivial⟩, (hsignal _).mpr trivial⟩

/-- The rule for a router stays when the next ACK has routes only, and a signal between inserting
the first rule and the assignment leaves the rule. -/
theorem stale_router_and_rule_left :
    ¬(handleLease routeAck (handleLease routerAck idle)).rules.Perm routeAck.announced ∧
      ¬NoneRemains (.inside routerAck 1) idle := by
  constructor
  · intro hperm
    have hclient : (handleLease routerAck idle).client = handleAck routerAck boot :=
      run_perform_client _ _
    rw [(idle_tidy.handleLease routerAck).rules_perm_announced_iff, hclient] at hperm
    have hstale : routeAck.announced = [⟨10, 0, 0, 1⟩] := hperm
    revert hstale
    decide
  · rw [noneRemains_iff idle_tidy.kept (fun ack => (idle_tidy.kept_handleRoutes ack).sized)]
    intro hsafe
    have hlength := List.Subperm.length_le hsafe
    revert hlength
    decide

end EchoLife.Dhcp.Client
