import EchoLife.Dhcp.StaticRoutes

/-!
The rules with which the DHCP client lets gateways send it ICMP requests. After an ACK it deletes
those for the addresses in `pre_server_addr`, inserts those for the present gateways, and only
then notes these in the array. The handler of SIGTERM deletes the rules for the array, whichever
statement it interrupts.
-/

namespace EchoLife.Dhcp.Client

open List Run Text

/-- The client, the source addresses of its rules, and what was last written to the file under
`/proc`. -/
structure Firewall where
  client : State
  preServerAddr : List Address
  rules : List Address
  icmpAcl : List Address

variable {f : Firewall}

/-- The two commands `iptables`, the command that writes the file, and an assignment to
`pre_server_addr`. -/
inductive AclStep where
  | delete (x : Address)
  | insert (x : Address)
  | publish (addrs : List Address)
  | remember (i : Nat) (x : Address)

/-- The statement runs a command in a process of its own, for which the client waits. -/
def AclStep.isCommand : AclStep → Bool
  | .delete _ => true
  | .insert _ => true
  | .publish _ => true
  | .remember _ _ => false

def AclStep.perform : AclStep → Firewall → Firewall
  | .delete x, f => { f with rules := f.rules.erase x }
  | .insert x, f => { f with rules := x :: f.rules }
  | .publish addrs, f => { f with icmpAcl := addrs }
  | .remember i x, f => { f with preServerAddr := f.preServerAddr.set i x }

section
variable (addrs : List Address)

def used : List Address :=
  addrs.filter (fun x => x ≠ anyAddress)

/-- `cur_server_addr`: the gateway in the temporary file, or else those noted of the
routes. -/
def curServerAddr (s : State) : List Address :=
  if s.gwItem.getD [] ≠ [] ∧ s.gwItem.getD [] ≠ anyAddress.text then
    (inetAton (s.gwItem.getD [])).getD anyAddress :: replicate (icmpDhcpAutoaclMax - 1) anyAddress
  else
    s.gGwIp.map (fun text => if text = [] then anyAddress else (inetAton text).getD anyAddress)

def automaticAclDhcp (f : Firewall) : List AclStep :=
  (used f.preServerAddr).map .delete ++
    ((used (curServerAddr f.client)).map .insert ++
      (.publish (used (curServerAddr f.client) ++
          replicate (icmpDhcpAutoaclMax - (used (curServerAddr f.client)).length)
            anyAddress) ::
        (range icmpDhcpAutoaclMax).map (fun i =>
          .remember i ((curServerAddr f.client).getD i anyAddress))))

def handleRoutes (ack : Ack) (f : Firewall) : Firewall :=
  { f with client := handleAck ack f.client }

def handleLease (ack : Ack) (f : Firewall) : Firewall :=
  run AclStep.perform (automaticAclDhcp (handleRoutes ack f)) (handleRoutes ack f)

def terminate (f : Firewall) : List AclStep :=
  (used f.preServerAddr).map .delete

/-! ### The parts of the function -/

theorem run_delete (f : Firewall) :
    run AclStep.perform (addrs.map .delete) f = { f with rules := f.rules.diff addrs } := by
  induction addrs generalizing f with
  | nil => rfl
  | cons x rest ih =>
    rw [map_cons, run_cons, ih, diff_cons]
    rfl

private theorem run_insert (f : Firewall) :
    run AclStep.perform (addrs.map .insert) f = { f with rules := addrs.reverse ++ f.rules } := by
  induction addrs generalizing f with
  | nil => rfl
  | cons x rest ih =>
    rw [map_cons, run_cons, ih, reverse_cons, append_assoc]
    rfl

end

theorem set_take_append_drop {α : Type*} {cur pre : List α} (hlength : pre.length = cur.length)
    (i : Nat) (default : α) :
    (cur.take i ++ pre.drop i).set i (cur.getD i default) =
      cur.take (i + 1) ++ pre.drop (i + 1) := by
  rcases lt_or_ge i cur.length with hlt | hge
  · have hpre : pre.drop i = pre[i] :: pre.drop (i + 1) :=
      drop_eq_getElem_cons (by omega)
    rw [set_append_right _ _ (by rw [length_take]; omega), length_take,
      Nat.min_eq_left (by omega), Nat.sub_self, hpre, set_cons_zero,
      getD_eq_getElem _ _ hlt, ← take_concat_get' cur i hlt, append_assoc]
    rfl
  · rw [take_of_length_le hge, take_of_length_le (by omega), drop_eq_nil_of_le (by omega),
      drop_eq_nil_of_le (by omega), append_nil, set_eq_of_length_le hge]

variable {cur : List Address} {k : Nat}

private theorem run_remember (hlength : f.preServerAddr.length = cur.length) (i : Nat) :
    run AclStep.perform ((range i).map (fun i => .remember i (cur.getD i anyAddress))) f =
      { f with preServerAddr := cur.take i ++ f.preServerAddr.drop i } := by
  induction i with
  | zero => rfl
  | succ i ih =>
    rw [range_succ, map_append, run_append, ih]
    simp only [map_cons, map_nil, run_cons, run_nil, AclStep.perform]
    rw [set_take_append_drop hlength]

structure Sized (f : Firewall) : Prop where
  length_pre : f.preServerAddr.length = icmpDhcpAutoaclMax
  length_gGwIp : f.client.gGwIp.length = icmpDhcpAutoaclMax

theorem Sized.length_cur (h : Sized f) : (curServerAddr f.client).length = icmpDhcpAutoaclMax := by
  unfold curServerAddr
  split
  · rfl
  · rw [length_map, h.length_gGwIp]

def reached (f : Firewall) (k : Nat) : Firewall :=
  run AclStep.perform ((automaticAclDhcp f).take k) f

def inserted (f : Firewall) (k : Nat) : List Address :=
  (used (curServerAddr f.client)).take (k - (used f.preServerAddr).length)

theorem inserted_of_lt (hk : k < (used f.preServerAddr).length) : inserted f k = [] := by
  rw [inserted, Nat.sub_eq_zero_of_le hk.le, take_zero]

def assigned (f : Firewall) (k : Nat) : Nat :=
  k - (used f.preServerAddr).length - (used (curServerAddr f.client)).length - 1

def remembered (f : Firewall) (k : Nat) : List Address :=
  (curServerAddr f.client).take (assigned f k) ++ f.preServerAddr.drop (assigned f k)

private theorem run_publish_remember (hcur : cur.length = icmpDhcpAutoaclMax)
    (hpre : f.preServerAddr.length = icmpDhcpAutoaclMax) (addrs : List Address) (n : Nat) :
    (run AclStep.perform ((.publish addrs :: (range icmpDhcpAutoaclMax).map
        (fun i => .remember i (cur.getD i anyAddress))).take n) f).rules = f.rules ∧
      (run AclStep.perform ((.publish addrs :: (range icmpDhcpAutoaclMax).map
        (fun i => .remember i (cur.getD i anyAddress))).take n) f).preServerAddr =
          cur.take (n - 1) ++ f.preServerAddr.drop (n - 1) := by
  cases n with
  | zero => exact ⟨rfl, rfl⟩
  | succ n =>
    have hremember := @run_remember (AclStep.perform (.publish addrs) f) cur
      (hpre.trans hcur.symm) (min n icmpDhcpAutoaclMax)
    rw [take_succ_cons, run_cons, ← map_take, take_range, hremember, Nat.add_sub_cancel]
    refine ⟨rfl, ?_⟩
    change cur.take _ ++ f.preServerAddr.drop _ = _
    rcases le_total n icmpDhcpAutoaclMax with hle | hle
    · rw [min_eq_left hle]
    rw [min_eq_right hle, take_of_length_le (by omega),
      take_of_length_le (by omega), drop_eq_nil_of_le (by omega), drop_eq_nil_of_le (by omega)]

theorem reached_eq (h : Sized f) (k : Nat) :
    (reached f k).rules = (inserted f k).reverse ++ f.rules.diff ((used f.preServerAddr).take k) ∧
      (reached f k).preServerAddr = remembered f k := by
  unfold reached automaticAclDhcp
  rw [take_append, take_append, length_map, length_map, ← map_take,
    ← map_take, run_append, run_append, run_delete, run_insert]
  constructor
  · apply (run_publish_remember h.length_cur _ _ _).1
    exact h.length_pre
  · apply (run_publish_remember h.length_cur _ _ _).2
    exact h.length_pre

/-! ### The whole function -/

/-- Every rule is for an address in the array, and every address has its rule. -/
structure Kept (f : Firewall) : Prop where
  sized : Sized f
  rules_perm : f.rules.Perm (used f.preServerAddr)

theorem diff_eq_nil_iff (l addrs : List Address) : l.diff addrs = [] ↔ l.Subperm addrs := by
  rw [← Multiset.coe_le, ← tsub_eq_zero_iff_le, Multiset.coe_sub, Multiset.coe_eq_zero]

theorem run_perform_client (steps : List AclStep) (f : Firewall) :
    (run AclStep.perform steps f).client = f.client := by
  apply run_observe (f := Firewall.client)
  intro step _ g
  cases step with
  | delete x => rfl
  | insert x => rfl
  | publish addrs => rfl
  | remember i x => rfl

private theorem length_automaticAclDhcp (f : Firewall) :
    (automaticAclDhcp f).length =
      (used f.preServerAddr).length + (used (curServerAddr f.client)).length + 1 +
        icmpDhcpAutoaclMax := by
  simp only [automaticAclDhcp, length_append, length_map, length_cons, length_range]
  omega

/-- After the function the rules are those for the present gateways, and the array
holds these. -/
theorem Kept.run_automaticAclDhcp (h : Kept f) :
    (run AclStep.perform (automaticAclDhcp f) f).rules = (used (curServerAddr f.client)).reverse ∧
      (run AclStep.perform (automaticAclDhcp f) f).preServerAddr = curServerAddr f.client := by
  have hall := reached_eq h.sized (automaticAclDhcp f).length
  have hcur := h.sized.length_cur
  have hpre := h.sized.length_pre
  have hlength := length_automaticAclDhcp f
  rw [reached, take_length] at hall
  rw [hall.1, hall.2]
  constructor
  · rw [inserted, take_of_length_le (by omega), take_of_length_le (by omega),
      (diff_eq_nil_iff _ _).mpr h.rules_perm.subperm, append_nil]
  have hassigned : assigned f (automaticAclDhcp f).length = icmpDhcpAutoaclMax := by
    rw [assigned]
    omega
  rw [remembered, hassigned, take_of_length_le (by omega), drop_eq_nil_of_le (by omega), append_nil]

/-! ### The signal -/

/-- The rules left by the handler. A command that was under way ends after `j` of those of the
handler. -/
def leftRules (command : Option AclStep) (j : Nat) (f : Firewall) : List Address :=
  (run AclStep.perform ((terminate f).take j ++ (command.toList ++ (terminate f).drop j)) f).rules

/-- When the signal arrives: before or after the function, with files and routes in any state;
between two of its statements; or during the command after so many statements. -/
inductive Moment where
  | outside (client : State)
  | inside (ack : Ack) (k : Nat)
  | during (ack : Ack) (k : Nat)

def underWay (f : Firewall) (k : Nat) : Option AclStep :=
  (automaticAclDhcp f)[k]?.filter AclStep.isCommand

/-- No rule is left, however long a command that is under way takes. -/
def NoneRemains : Moment → Firewall → Prop
  | .outside client, f => leftRules none 0 { f with client } = []
  | .inside ack k, f => leftRules none 0 (reached (handleRoutes ack f) k) = []
  | .during ack k, f =>
    ∀ j, leftRules (underWay (handleRoutes ack f) k) j (reached (handleRoutes ack f) k) = []

/-- The gateways with a new rule are in the array by then, and no rule is just being
inserted. -/
def Safe : Moment → Firewall → Prop
  | .outside _, _ => True
  | .inside ack k, f =>
    (inserted (handleRoutes ack f) k).Subperm (used (remembered (handleRoutes ack f) k))
  | .during ack k, f =>
    (∀ x, (automaticAclDhcp (handleRoutes ack f))[k]? ≠ some (.insert x)) ∧
      (inserted (handleRoutes ack f) k).Subperm (used (remembered (handleRoutes ack f) k))

section
variable (f : Firewall) (j : Nat)

theorem leftRules_none : leftRules none j f = f.rules.diff (used f.preServerAddr) := by
  rw [leftRules, Option.toList_none, nil_append, take_append_drop, terminate, run_delete]

private theorem leftRules_publish (addrs : List Address) :
    leftRules (some (.publish addrs)) j f = f.rules.diff (used f.preServerAddr) := by
  have hparts : f.rules.diff (used f.preServerAddr) =
      (f.rules.diff ((used f.preServerAddr).take j)).diff ((used f.preServerAddr).drop j) := by
    rw [← diff_append, take_append_drop]
  rw [leftRules, terminate, ← map_take, ← map_drop, run_append, run_delete,
    run_append, run_delete, hparts]
  rfl

private theorem leftRules_delete (x : Address) :
    leftRules (some (.delete x)) j f =
      f.rules.diff ((used f.preServerAddr).take j ++ x :: (used f.preServerAddr).drop j) := by
  rw [leftRules, terminate, ← map_take, ← map_drop, run_append, run_delete,
    run_append, run_delete, diff_append, diff_cons]
  rfl

private theorem leftRules_insert_late (x : Address) :
    leftRules (some (.insert x)) (terminate f).length f ≠ [] := by
  rw [leftRules, take_length, drop_length, append_nil, run_append]
  exact cons_ne_nil _ _

end

section
variable (h : Kept f)
include h

theorem Kept.reached_rules (k : Nat) :
    (inserted f k = [] ∧ assigned f k = 0 ∧ (reached f k).rules.Subperm (used f.preServerAddr)) ∨
      (used f.preServerAddr).length ≤ k ∧ (reached f k).rules = (inserted f k).reverse := by
  have hrules := (reached_eq h.sized k).1
  rcases lt_or_ge k (used f.preServerAddr).length with hlt | hge
  · have hnone := inserted_of_lt hlt
    refine .inl ⟨hnone, ?_, ?_⟩
    · rw [assigned, Nat.sub_eq_zero_of_le hlt.le, Nat.zero_sub, Nat.zero_sub]
    · rw [hrules, hnone, reverse_nil, nil_append]
      exact (diff_sublist _ _).subperm.trans h.rules_perm.subperm
  · refine .inr ⟨hge, ?_⟩
    rw [hrules, take_of_length_le hge, (diff_eq_nil_iff _ _).mpr h.rules_perm.subperm, append_nil]

theorem Kept.subperm_iff (k : Nat) :
    (reached f k).rules.Subperm (used (reached f k).preServerAddr) ↔
      (inserted f k).Subperm (used (remembered f k)) := by
  rw [(reached_eq h.sized k).2]
  rcases h.reached_rules k with ⟨hnone, hassigned, hsub⟩ | ⟨_, hrules⟩
  · have hsame : remembered f k = f.preServerAddr := by
      rw [remembered, hassigned]
      rfl
    rw [hnone, hsame]
    exact iff_of_true hsub nil_subperm
  · rw [hrules]
    exact (reverse_perm _).subperm_right

theorem Kept.leftRules_quiet_iff (k : Nat) {command : Option AclStep}
    (hquiet : ∀ g j, leftRules command j g = g.rules.diff (used g.preServerAddr)) :
    (∀ j, leftRules command j (reached f k) = []) ↔
      (inserted f k).Subperm (used (remembered f k)) := by
  simp only [hquiet, diff_eq_nil_iff, forall_const]
  exact h.subperm_iff k

/-- A signal with a deletion under way. Nothing has been inserted by then. -/
theorem Kept.leftRules_delete_eq_nil (hk : k < (used f.preServerAddr).length)
    (x : Address) (j : Nat) : leftRules (some (.delete x)) j (reached f k) = [] := by
  have hcovered := (h.subperm_iff k).mpr (inserted_of_lt hk ▸ nil_subperm)
  rw [leftRules_delete, diff_eq_nil_iff]
  apply hcovered.trans
  have hparts := take_append_drop j (used (reached f k).preServerAddr)
  nth_rewrite 1 [← hparts]
  exact ((sublist_cons_self _ _).append_left _).subperm

end

private theorem lt_of_delete {x : Address} (h : (automaticAclDhcp f)[k]? = some (.delete x)) :
    k < (used f.preServerAddr).length := by
  by_contra hge
  rw [automaticAclDhcp, getElem?_append_right (by rw [length_map]; omega)] at h
  have hmem := mem_of_getElem? h
  simp at hmem

theorem Kept.leftRules_underWay_iff (h : Kept f) (k : Nat) :
    (∀ j, leftRules (underWay f k) j (reached f k) = []) ↔
      (∀ x, (automaticAclDhcp f)[k]? ≠ some (.insert x)) ∧
        (inserted f k).Subperm (used (remembered f k)) := by
  unfold underWay
  cases hstep : (automaticAclDhcp f)[k]? with
  | none => simpa using h.leftRules_quiet_iff k leftRules_none
  | some step =>
    cases step with
    | delete x =>
      have hk := lt_of_delete hstep
      rw [inserted_of_lt hk]
      apply iff_of_true
      · exact fun j => h.leftRules_delete_eq_nil hk x j
      · exact ⟨by simp, nil_subperm⟩
    | insert x =>
      apply iff_of_false
      · exact fun hall => leftRules_insert_late _ x (hall _)
      · exact fun hsafe => hsafe.1 x rfl
    | publish addrs =>
      have hquiet := h.leftRules_quiet_iff k (fun g j => leftRules_publish g j addrs)
      exact hquiet.trans (and_iff_right (by simp)).symm
    | remember i x =>
      have hquiet := h.leftRules_quiet_iff k leftRules_none
      exact hquiet.trans (and_iff_right (by simp)).symm

/-- No rule is left exactly if the signal arrives at a safe moment. -/
theorem noneRemains_iff (h : Kept f) (hsized : ∀ ack, Sized (handleRoutes ack f)) (m : Moment) :
    NoneRemains m f ↔ Safe m f := by
  cases m with
  | outside client =>
    apply iff_of_true _ trivial
    rw [NoneRemains, leftRules_none, diff_eq_nil_iff]
    exact h.rules_perm.subperm
  | inside ack k =>
    have hkept : Kept (handleRoutes ack f) := ⟨hsized ack, h.rules_perm⟩
    rw [NoneRemains, leftRules_none, diff_eq_nil_iff]
    exact hkept.subperm_iff k
  | during ack k =>
    have hkept : Kept (handleRoutes ack f) := ⟨hsized ack, h.rules_perm⟩
    exact hkept.leftRules_underWay_iff k

end EchoLife.Dhcp.Client
