import EchoLife.Bridge.Multicast

/-!
The bridges, their ports and the snooping list as one system. Administration
holds the RTNL mutex and proceeds in steps; frames, the spanning tree and the
timer come in between. A port is known by its address.
-/

namespace EchoLife.Bridge

open Function List Run

structure BridgeDevice where
  up : Bool
  portList : List Nat

/-- `struct net_bridge_port`. -/
structure BridgePort extends Port where
  br : Nat

/-- What the holder of the mutex goes on with: `br_add_if` after setting `br_port`, `del_br`, and
the two steps of `del_nbp` for a list of ports. `ready` says that the device is up with a carrier.
-/
inductive Rtnl where
  | free
  | linking (b p : Nat) (ready : Bool)
  | enabling (b p : Nat) (ready : Bool)
  | clearing (b : Nat)
  | deleting (ports : List Nat) (b : Option Nat)
  | unlinking (p : Nat) (rest : List Nat) (b : Option Nat)
  deriving DecidableEq

inductive DeviceKind where
  | ethernet
  | bridge
  | other
  deriving DecidableEq

inductive Errno where
  | eexist
  | enxio
  | enodev
  | ebusy
  | einval
  | eloop
  | exfull
  deriving DecidableEq

def brMaxPorts : Nat := 1024

/-- The bridges, the memory of ports, `br_port` of the devices by their index, the
snooping list, and the mutex. -/
structure Kernel where
  bridge : Nat → Option BridgeDevice
  port : Nat → BridgePort
  brPort : Nat → Option Nat
  snooping : SnoopingList
  rtnl : Rtnl

namespace Kernel

def initial (memory : Nat → BridgePort) : Kernel where
  bridge := fun _ => none
  port := memory
  brPort := fun _ => none
  snooping := .init
  rtnl := .free

def portsOf (k : Kernel) (b : Nat) : List Nat :=
  match k.bridge b with
  | none => []
  | some br => br.portList

def view (k : Kernel) (b : Nat) : NetBridge where
  port := fun p => (k.port p).toPort
  portList := k.portsOf b

def setBridge (k : Kernel) (b : Nat) (br : Option BridgeDevice) : Kernel :=
  { k with bridge := update k.bridge b br }

def setPorts (k : Kernel) (b : Nat) (ports : List Nat) : Kernel :=
  k.setBridge b ((k.bridge b).map (fun br => { br with portList := ports }))

def setState (k : Kernel) (p : Nat) (state : PortState) : Kernel :=
  { k with port := update k.port p { k.port p with state := state } }

/-- `br_add_bridge`. A bridge starts down and without ports. -/
def brAddBridge (b : Nat) (k : Kernel) : Except Errno Kernel :=
  match k.bridge b with
  | none => .ok (k.setBridge b (some ⟨false, []⟩))
  | some _ => .error .eexist

def brDelBridge (b : Nat) (k : Kernel) : Except Errno Kernel :=
  match k.bridge b with
  | none => .error .enxio
  | some br => if br.up then .error .ebusy else .ok { k with rtnl := .clearing b }

/-- `br_add_if` up to the assignment of `br_port`. The ports of a bridge have different numbers,
and 0 is reserved. -/
def brAddIf (b : Nat) (dev : NetDevice) (kind : DeviceKind) (p : Nat) (ready : Bool)
    (k : Kernel) : Except Errno Kernel :=
  match k.bridge b, kind, k.brPort dev.ifindex with
  | none, _, _ => .error .enodev
  | some _, .other, _ => .error .einval
  | some _, .bridge, _ => .error .eloop
  | some _, .ethernet, some _ => .error .ebusy
  | some br, .ethernet, none =>
    if brMaxPorts ≤ br.portList.length + 1 then .error .exfull
    else
      .ok { k with
        port := update k.port p ⟨⟨dev, .disabled⟩, b⟩
        brPort := update k.brPort dev.ifindex (some p)
        rtnl := .linking b p ready }

def brDelIf (b : Nat) (dev : NetDevice) (k : Kernel) : Except Errno Kernel :=
  match k.brPort dev.ifindex with
  | none => .error .einval
  | some p =>
    if (k.port p).br = b then .ok { k with rtnl := .deleting [p] none }
    else .error .einval

def brDevOpen (b : Nat) (ready : Nat → Bool) (k : Kernel) : Except Errno Kernel :=
  match k.bridge b with
  | none => .error .enodev
  | some br =>
    .ok { k.setBridge b (some { br with up := true }) with
      port := fun p => { k.port p with
        state := if p ∈ br.portList ∧ ready p then .blocking else (k.port p).state } }

def brDevStop (b : Nat) (k : Kernel) : Except Errno Kernel :=
  match k.bridge b with
  | none => .error .enodev
  | some br =>
    .ok { k.setBridge b (some { br with up := false }) with
      port := fun p => { k.port p with
        state := if p ∈ br.portList then .disabled else (k.port p).state } }

/-- `br_rtm_setlink` gives a port any state; what `br_device_event` does to it is a case of that.
-/
def brRtmSetlink (dev : NetDevice) (state : PortState) (k : Kernel) : Except Errno Kernel :=
  match k.brPort dev.ifindex with
  | none => .error .einval
  | some p => .ok (k.setState p state)

/-- The second step of `del_nbp`. -/
def unlink (p : Nat) (rest : List Nat) (b : Option Nat) (k : Kernel) : Kernel :=
  { k.setPorts (k.port p).br ((k.portsOf (k.port p).br).filter (· ≠ p)) with
    brPort := update k.brPort (k.port p).dev.ifindex none
    rtnl := .deleting rest b }

def resume (k : Kernel) : Kernel :=
  match k.rtnl with
  | .free => k
  | .linking b p ready =>
    { k.setPorts b (p :: k.portsOf b) with rtnl := .enabling b p ready }
  | .enabling b p ready =>
    if ready && (k.bridge b).any BridgeDevice.up then
      { k.setState p .blocking with rtnl := .free }
    else { k with rtnl := .free }
  | .clearing b =>
    { k with snooping := k.snooping.clear, rtnl := .deleting (k.portsOf b) (some b) }
  | .deleting (p :: rest) b => { k.setState p .disabled with rtnl := .unlinking p rest b }
  | .unlinking p rest b => k.unlink p rest b
  | .deleting [] (some b) => { k.setBridge b none with rtnl := .free }
  | .deleting [] none => { k with rtnl := .free }

end Kernel

def isMulticast (mac : Mac) : Bool :=
  mac.getLsbD 40

def isLinkLocal (mac : Mac) : Bool :=
  mac >>> 4 == 0x0180c200000

/-- The port of a frame that comes to `br_igmp_snooping_forward`. -/
def Kernel.handled (k : Kernel) (skb : Frame) : Option Nat :=
  match k.brPort skb.dev.ifindex with
  | none => none
  | some p =>
    if isMulticast skb.hSource ∨ skb.hSource = 0 then none
    else if isLinkLocal skb.hDest then none
    else if (k.port p).state = .forwarding ∧ isMulticast skb.hDest then some p
    else none

variable {k : Kernel}

theorem Kernel.of_handled {skb : Frame} {p : Nat} (h : k.handled skb = some p) :
    k.brPort skb.dev.ifindex = some p ∧ (k.port p).state = .forwarding := by
  unfold handled at h
  split at h
  · cases h
  rename_i q hport
  split at h
  · cases h
  split at h
  · cases h
  split at h
  next hstate =>
    cases h
    exact ⟨hport, hstate.1⟩
  · cases h

/-- A new port has the address of its memory. A request that fails for want of memory, or in
sysfs, is none. -/
inductive Request where
  | addBridge (b : Nat)
  | delBridge (b : Nat)
  | addIf (b : Nat) (dev : NetDevice) (kind : DeviceKind) (p : Nat) (ready : Bool)
  | delIf (b : Nat) (dev : NetDevice)
  | devOpen (b : Nat) (ready : Nat → Bool)
  | devStop (b : Nat)
  | setLink (dev : NetDevice) (state : PortState)

def Request.perform : Request → Kernel → Except Errno Kernel
  | .addBridge b, k => k.brAddBridge b
  | .delBridge b, k => k.brDelBridge b
  | .addIf b dev kind p ready, k => k.brAddIf b dev kind p ready
  | .delIf b dev, k => k.brDelIf b dev
  | .devOpen b ready, k => k.brDevOpen b ready
  | .devStop b, k => k.brDevStop b
  | .setLink dev state, k => k.brRtmSetlink dev state

/-- A request waits until the mutex is free. The spanning tree leaves disabled ports alone. -/
inductive Event where
  | request (r : Request)
  | resume
  | stp (p : Nat) (state : PortState)
  | receive (env : Env) (skb : Frame)
  | expire (env : Env)
  | clear
  | setEnable (enable : Int)

def Event.step : Event → Kernel → Kernel
  | .request r, k =>
    if k.rtnl = .free then
      match r.perform k with
      | .ok next => next
      | .error _ => k
    else k
  | .resume, k => k.resume
  | .stp p state, k =>
    if (k.port p).state ≠ .disabled ∧ state ≠ .disabled then k.setState p state else k
  | .receive env skb, k =>
    match k.handled skb with
    | none => k
    | some p => { k with snooping := k.snooping.forward env p skb }
  | .expire env, k => { k with snooping := k.snooping.expire env }
  | .clear, k => { k with snooping := k.snooping.clear }
  | .setEnable enable, k => { k with snooping := k.snooping.setEnable enable }

/-- A new port's memory is not that of a port, and a frame refers to the port of its device. -/
def Event.Possible : Event → Kernel → Prop
  | .request (.addIf _ _ _ p _), k =>
    (∀ b, p ∉ k.portsOf b) ∧ ∀ d, k.brPort d ≠ some p
  | .receive _ skb, k => skb.brPort = k.brPort skb.dev.ifindex
  | _, _ => True

theorem Event.receive_table {env : Env} {skb : Frame} {p : Nat}
    (hpossible : (Event.receive env skb).Possible k) (hhandled : k.handled skb = some p)
    (br : NetBridge) :
    ((Event.receive env skb).step k).snooping.table =
      { k.snooping.table with
        entries := (brIgmpSnoopingForward env br k.snooping.table skb skb.hDest
          true).entries } := by
  have hport : skb.brPort = some p :=
    Eq.trans hpossible (Kernel.of_handled hhandled).1
  simp only [step, hhandled]
  exact SnoopingList.forward_table env p br skb k.snooping hport

theorem Request.perform_snooping {r : Request} {next : Kernel}
    (hok : r.perform k = .ok next) : next.snooping = k.snooping := by
  cases r with
  | addBridge b =>
    simp only [perform, Kernel.brAddBridge] at hok
    split at hok
    · cases hok
      rfl
    · cases hok
  | delBridge b =>
    simp only [perform, Kernel.brDelBridge] at hok
    split at hok
    · cases hok
    split at hok
    · cases hok
    · cases hok
      rfl
  | addIf b dev kind p ready =>
    simp only [perform, Kernel.brAddIf] at hok
    split at hok
    · cases hok
    · cases hok
    · cases hok
    · cases hok
    split at hok
    · cases hok
    · cases hok
      rfl
  | delIf b dev =>
    simp only [perform, Kernel.brDelIf] at hok
    split at hok
    · cases hok
    split at hok
    · cases hok
      rfl
    · cases hok
  | devOpen b ready =>
    simp only [perform, Kernel.brDevOpen] at hok
    split at hok
    · cases hok
    · cases hok
      rfl
  | devStop b =>
    simp only [perform, Kernel.brDevStop] at hok
    split at hok
    · cases hok
    · cases hok
      rfl
  | setLink dev state =>
    simp only [perform, Kernel.brRtmSetlink] at hok
    split at hok
    · cases hok
    · cases hok
      rfl

theorem Kernel.resume_snooping (k : Kernel) :
    k.resume.snooping = k.snooping ∨ k.resume.snooping = k.snooping.clear := by
  unfold resume
  split
  · exact .inl rfl
  · exact .inl rfl
  · split
    · exact .inl rfl
    · exact .inl rfl
  · exact .inr rfl
  · exact .inl rfl
  · exact .inl rfl
  · exact .inl rfl
  · exact .inl rfl

inductive SnoopingStep (event : Event) (k : Kernel) : SnoopingList → Prop
  | same : SnoopingStep event k k.snooping
  | forward (env : Env) (skb : Frame) (p : Nat) (hevent : event = .receive env skb)
      (hhandled : k.handled skb = some p) :
      SnoopingStep event k (k.snooping.forward env p skb)
  | expire (env : Env) : SnoopingStep event k (k.snooping.expire env)
  | clear : SnoopingStep event k k.snooping.clear
  | setEnable (enable : Int) : SnoopingStep event k (k.snooping.setEnable enable)

theorem Event.snoopingStep (event : Event) (k : Kernel) :
    SnoopingStep event k (event.step k).snooping := by
  cases event with
  | request r =>
    simp only [step]
    split
    · split
      next next hok =>
        rw [Request.perform_snooping hok]
        exact .same
      · exact .same
    · exact .same
  | resume =>
    rcases k.resume_snooping with hsame | hclear
    · simp only [step, hsame]
      exact .same
    · simp only [step, hclear]
      exact .clear
  | stp p state =>
    simp only [step]
    split
    · exact .same
    · exact .same
  | receive env skb =>
    simp only [step]
    split
    · exact .same
    next p hhandled =>
      exact .forward env skb p rfl hhandled
  | expire env => exact .expire env
  | clear => exact .clear
  | setEnable enable => exact .setEnable enable

theorem Event.tableStep {event : Event} (hpossible : event.Possible k) :
    (event.step k).snooping.table = k.snooping.table ∨
    ∃ change : TableEvent, (event.step k).snooping.table = change.step k.snooping.table := by
  have hstep := event.snoopingStep k
  generalize hnext : (event.step k).snooping = next at hstep ⊢
  cases hstep with
  | same => exact .inl rfl
  | forward env skb p hevent hhandled =>
    subst hevent
    rw [← hnext]
    exact .inr ⟨.frame env (k.view (k.port p).br) skb skb.hDest true,
      receive_table hpossible hhandled _⟩
  | expire env =>
    unfold SnoopingList.expire
    split
    · exact .inl rfl
    split
    · exact .inr ⟨.timeout env, rfl⟩
    · exact .inl rfl
  | clear => exact .inr ⟨.clear, rfl⟩
  | setEnable enable => exact .inr ⟨.setEnable enable, rfl⟩

theorem Kernel.soundEntries {memory : Nat → BridgePort}
    (hreach : Reaches Event.step Event.Possible (.initial memory) k) :
    SoundEntries k.snooping.table.entries := by
  apply hreach.invariant (P := fun k : Kernel => SoundEntries k.snooping.table.entries)
  · exact ⟨nodup_nil, by simp [initial, SnoopingList.init]⟩
  intro event k hpossible h
  rcases event.tableStep hpossible with hsame | ⟨change, hchange⟩
  · rw [hsame]
    exact h
  · rw [hchange]
    exact h.step change

def ethDevice (i : Nat) : NetDevice :=
  ⟨10 + i, [0x65, 0x74, 0x68, 0x30 + UInt8.ofNat i]⟩

def bringUp (i : Nat) : List Event :=
  [.request (.addBridge i), .request (.devOpen i (fun _ => true)),
    .request (.addIf i (ethDevice i) .ethernet i true), .resume, .resume, .stp i .forwarding]

def twoBridges : List Event :=
  bringUp 0 ++ bringUp 1 ++ [.setEnable 1]

def bootKernel : Kernel :=
  .initial (fun _ => ⟨⟨ethDevice 9, .disabled⟩, 9⟩)

theorem twoBridges_possible : Allowed Event.step Event.Possible twoBridges bootKernel := by
  have hfirst : Allowed Event.step Event.Possible (bringUp 0) bootKernel := by
    refine ⟨trivial, trivial, ⟨?_, ?_⟩, trivial, trivial, trivial, trivial⟩
    · intro b
      cases b with
      | zero => exact not_mem_nil
      | succ b => exact not_mem_nil
    · nofun
  apply Allowed.append
  · apply Allowed.append hfirst
    refine ⟨trivial, trivial, ⟨?_, ?_⟩, trivial, trivial, trivial, trivial⟩
    · intro b
      match b with
      | 0 => exact not_mem_cons_of_ne_of_not_mem Nat.one_ne_zero not_mem_nil
      | 1 => exact not_mem_nil
      | b + 2 => exact not_mem_nil
    · intro d hd
      have hother : update (fun _ => none) 10 (some 0) d = some 1 := hd
      rw [update_apply] at hother
      split at hother
      · cases hother
      · cases hother
  · exact ⟨trivial, trivial⟩

/-- An IGMPv2 report for the group 239.1.2.3 from a host behind an interface. -/
def joinFrame (i : Nat) : Frame where
  dev := ethDevice i
  brPort := some i
  protocol := ethPIp
  hDest := 0x01005e010203
  hSource := 0x020000000002
  data := fun n => if n = 9 then ipprotoIgmp else if n = 0 then 0x45
    else if n = 20 then 0x16 else 0

end EchoLife.Bridge
