import EchoLife.Base.Distinct
import EchoLife.Base.Lines
import EchoLife.Base.Run
import EchoLife.Dhcp.ClasslessRoutes

/-!
The static routes of the DHCP client over a history of ACKs. A process of its own makes the file
`staticroute` of an ACK; the client deletes the routes in `oldstaticroute`, adds those in the new
file and keeps their lines as the old ones. The file is made only if the bytes of the option are
not an empty text, and without it nothing is deleted.
-/

namespace EchoLife.Dhcp.Client

open Distinct Lines List Run Text

/-! ### The script -/

/-- An option as `get_option` finds it: its length, and memory from its data on. -/
structure Field where
  len : Nat
  data : Nat → UInt8

structure Packet where
  option121 : Option (List UInt8)
  router : Option Field

/-- The variables of the script, `option_121` up to `option121_lenth`, empty when its process
begins. -/
structure Script where
  option121 : List UInt8
  routerIp : List UInt8

/-- The loop of `fill_options` over addresses, each of which goes into `router_ip`. -/
def fillRouter (data : Nat → UInt8) : Nat → Nat → Address
  | i, len + 5 => fillRouter data (i + 4) (len + 1)
  | i, _ => addressAt data i

def fillOptions (packet : Packet) : Script where
  option121 := (packet.option121.filter (fun bytes => bytes.length < 128)).getD []
  routerIp := (packet.router.map (fun f => (fillRouter f.data 0 f.len).text)).getD []

/-- The files of the interface, `gw_` of the temporary file, the gateways noted for the firewall
and the kernel's routes. -/
structure State where
  staticRoute : Option (List UInt8)
  oldStaticRoute : Option (List UInt8)
  gateway : Option (List UInt8)
  gwItem : Option (List UInt8)
  gGwIp : List (List UInt8)
  routes : Finset Entry

/-- Save `router_ip` in the file `gateway` and in the temporary file. -/
def saveRouterIp (routerIp : List UInt8) (s : State) : State :=
  if routerIp = [] then s
  else { s with gateway := some (routerIp ++ [10]), gwItem := some routerIp }

/-- `config_save`, as far as it is about routes, with a path of the session and files that can be
opened. -/
def configSave (script : Script) (s : State) : State :=
  if CString.buffer script.option121 0 = 0 then saveRouterIp script.routerIp s
  else
    match saveRoutes script.option121 script.routerIp with
    | some (file, routerIp) => saveRouterIp routerIp { s with staticRoute := some file }
    | none => s

def runScript (packet : Packet) (s : State) : State :=
  configSave (fillOptions packet) s

/-! ### The routes -/

def anyAddress : Address :=
  ⟨0, 0, 0, 0⟩

structure Scanned where
  addr : List UInt8
  mask : List UInt8
  gtwy : List UInt8

/-- `sscanf(line, "%s %s %s", addr, mask, gtwy)`. -/
def Scanned.sscanf (old : Scanned) (line : List UInt8) : Scanned :=
  match words line with
  | [] => old
  | [addr] => { old with addr }
  | [addr, mask] => { old with addr, mask }
  | addr :: mask :: gtwy :: _ => ⟨addr, mask, gtwy⟩

/-- The route of the command. For the gateway `0.0.0.0` the command names none. -/
def Scanned.entry (t : Scanned) : Option Entry := do
  let net ← inetAton t.addr
  let mask ← inetAton t.mask
  let gateway ← if t.gtwy = anyAddress.text then some anyAddress else inetAton t.gtwy
  return ⟨net, mask, gateway⟩

def Scanned.routeDel (t : Scanned) (routes : Finset Entry) : Finset Entry :=
  t.entry.elim routes (fun e => routes.erase e)

def Scanned.routeAdd (t : Scanned) (routes : Finset Entry) : Finset Entry :=
  t.entry.elim routes (fun e => insert e routes)

def delLine (s : Scanned × Finset Entry) (line : List UInt8) : Scanned × Finset Entry :=
  (s.1.sscanf line, (s.1.sscanf line).routeDel s.2)

def icmpDhcpAutoaclMax : Nat := 16

/-- The texts, the routes, the noted gateways with `entryIndex`, and the new `oldstaticroute`. -/
structure Adding where
  scanned : Scanned
  routes : Finset Entry
  noted : List (List UInt8) × Nat
  oldRoute : List UInt8

def addLine (s : Adding) (line : List UInt8) : Adding where
  scanned := s.scanned.sscanf line
  routes := (s.scanned.sscanf line).routeAdd s.routes
  noted :=
    if (s.scanned.sscanf line).gtwy = anyAddress.text then s.noted
    else note icmpDhcpAutoaclMax s.noted (s.scanned.sscanf line).gtwy
  oldRoute := s.oldRoute ++ line

/-- The two loops of `run_staticRoute`. The buffer for a line has 264 bytes. -/
def replaceRoutes (oldRoute fsRoute : List UInt8) (s : State) : Adding :=
  let deleted := (lines 263 oldRoute).foldl delLine (⟨[], [], []⟩, s.routes)
  (lines 263 fsRoute).foldl addLine ⟨deleted.1, deleted.2, (s.gGwIp, 0), []⟩

def runStaticRoute (s : State) : State :=
  match s.staticRoute with
  | none => s
  | some fsRoute =>
    let added := replaceRoutes (s.oldStaticRoute.getD []) fsRoute s
    { s with
      staticRoute := none
      oldStaticRoute := some added.oldRoute
      gGwIp := added.noted.1
      routes := added.routes }

/-! ### Lines of the files -/

def Entry.scanned (e : Entry) : Scanned :=
  ⟨e.net.text, e.mask.text, e.gateway.text⟩

private theorem blank_of_mem_text {x : Address} {c : UInt8} (h : c ∈ x.text) : blank c = false := by
  obtain ⟨hlow, hhigh⟩ := Address.mem_text h
  have hne : c ≠ 32 := by
    rintro rfl
    revert hlow
    decide
  have hgt : ¬c ≤ 13 := by
    intro hle
    have hle : c.toNat ≤ 13 := hle
    omega
  simp [blank, hne, hgt]

private theorem words_text (e : Entry) :
    words (e.text ++ [10]) = [e.net.text, e.mask.text, e.gateway.text] := by
  have hword (x : Address) {c : UInt8} (hc : blank c = true) (rest : List UInt8) :
      words (x.text ++ c :: rest) = x.text :: words rest :=
    words_cons (fun _ h => blank_of_mem_text h) x.text_ne_nil hc rest
  rw [Entry.text, append_assoc, cons_append, append_assoc, cons_append,
    hword _ rfl, hword _ rfl, hword _ rfl]
  rfl

@[simp] theorem sscanf_text (old : Scanned) (e : Entry) :
    old.sscanf (e.text ++ [10]) = e.scanned := by
  rw [Scanned.sscanf, words_text]
  rfl

@[simp] theorem entry_scanned (e : Entry) : e.scanned.entry = some e := by
  simp only [Scanned.entry, Entry.scanned, inetAton_text, Address.text_injective.eq_iff,
    Option.bind_eq_bind, Option.bind_some]
  split
  next hany =>
    rw [← hany]
    rfl
  · rfl

section
variable (entries : List Entry)

theorem lines_fileOf : lines 263 (fileOf entries) = entries.map (fun e => e.text ++ [10]) := by
  rw [fileOf, lines_flatMap, map_map]
  · rfl
  intro text htext
  obtain ⟨e, _, rfl⟩ := mem_map.mp htext
  have hnewline (x : Address) : (10 : UInt8) ∉ x.text := by
    intro hmem
    have hlow := (Address.mem_text hmem).1
    revert hlow
    decide
  have hnet := e.net.text_length
  have hmask := e.mask.text_length
  have hgateway := e.gateway.text_length
  constructor
  · simp [Entry.text, hnewline]
  · simp only [Entry.text, length_append, length_cons]
    omega

private theorem foldl_delLine (s : Scanned × Finset Entry) :
    ((entries.map (fun e => e.text ++ [10])).foldl delLine s).2 = s.2 \ entries.toFinset := by
  induction entries generalizing s with
  | nil => simp
  | cons e rest ih =>
    rw [map_cons, foldl_cons, ih]
    simp only [delLine, sscanf_text, Scanned.routeDel, entry_scanned, Option.elim_some,
      toFinset_cons]
    ext other
    simp only [Finset.mem_sdiff, Finset.mem_erase, Finset.mem_insert]
    tauto

def gatewaysOf : List Address :=
  (entries.map Entry.gateway).filter (fun x => x ≠ anyAddress)

private theorem foldl_addLine (s : Adding) :
    ((entries.map (fun e => e.text ++ [10])).foldl addLine s).routes = s.routes ∪ entries.toFinset ∧
      ((entries.map (fun e => e.text ++ [10])).foldl addLine s).noted =
        ((gatewaysOf entries).map Address.text).foldl (note icmpDhcpAutoaclMax) s.noted ∧
      ((entries.map (fun e => e.text ++ [10])).foldl addLine s).oldRoute =
        s.oldRoute ++ fileOf entries := by
  induction entries generalizing s with
  | nil => simp [gatewaysOf, fileOf]
  | cons e rest ih =>
    obtain ⟨hroutes, hnoted, hold⟩ := ih (addLine s (e.text ++ [10]))
    rw [map_cons, foldl_cons]
    refine ⟨?_, ?_, ?_⟩
    · rw [hroutes]
      simp only [addLine, sscanf_text, Scanned.routeAdd, entry_scanned, Option.elim_some,
        toFinset_cons]
      ext other
      simp only [Finset.mem_union, Finset.mem_insert]
      tauto
    · rw [hnoted]
      simp only [addLine, sscanf_text, Entry.scanned, Address.text_injective.eq_iff,
        gatewaysOf, map_cons]
      split
      next hany =>
        rw [filter_cons_of_neg (by simpa using hany)]
      next hany =>
        rw [filter_cons_of_pos (by simpa using hany), map_cons, foldl_cons]
    · rw [hold, fileOf_cons]
      simp [addLine]

end

variable {s : State}

private theorem runStaticRoute_fileOf {old entries : List Entry}
    (hold : s.oldStaticRoute.getD [] = fileOf old) (hnew : s.staticRoute = some (fileOf entries)) :
    runStaticRoute s =
      { s with
        staticRoute := none
        oldStaticRoute := some (fileOf entries)
        gGwIp := (((gatewaysOf entries).map Address.text).foldl (note icmpDhcpAutoaclMax)
          (s.gGwIp, 0)).1
        routes := s.routes \ old.toFinset ∪ entries.toFinset } := by
  have hadded := foldl_addLine entries
  simp only [runStaticRoute, hnew, replaceRoutes, hold, lines_fileOf]
  rw [(hadded _).1, (hadded _).2.1, (hadded _).2.2, foldl_delLine]
  rfl

/-! ### ACKs -/

/-- A well-formed option of classless routes or none, and any router option. -/
structure Ack where
  routes : Option (List Route)
  router : Option Field
  length_le : ∀ routes' ∈ routes, (encodeAll routes').length ≤ 255

section
variable (ack : Ack)

def Ack.packet : Packet :=
  ⟨ack.routes.map encodeAll, ack.router⟩

def handleAck (s : State) : State :=
  runStaticRoute (runScript ack.packet s)

def Ack.entries : List Entry :=
  staticEntries (ack.routes.getD [])

def Ack.zeroWidth : Option Address :=
  Client.zeroWidth (ack.routes.getD [])

def Ack.routerAddress : Option Address :=
  ack.router.map (fun f => fillRouter f.data 0 f.len)

/-- The option is short enough and does not begin with a route of width zero. -/
def Ack.read : Bool :=
  match ack.routes with
  | some (r :: rest) => decide (r.width ≠ 0 ∧ (encodeAll (r :: rest)).length < 128)
  | _ => false

def Ack.gateway : Option Address :=
  if ack.read then ack.zeroWidth.or ack.routerAddress else ack.routerAddress

end

def saveGateway (gateway : Option Address) (s : State) : State :=
  saveRouterIp ((gateway.map Address.text).getD []) s

section
variable (gateway : Option Address) (s : State)

theorem saveGateway_some (x : Address) :
    saveGateway (some x) s = { s with gateway := some (x.text ++ [10]), gwItem := some x.text } :=
  if_neg x.text_ne_nil

theorem saveGateway_eq :
    saveGateway gateway s =
      { s with
        gateway := (gateway.map (fun x => x.text ++ [10])).or s.gateway
        gwItem := (gateway.map Address.text).or s.gwItem } := by
  cases gateway with
  | none => rfl
  | some x => exact saveGateway_some s x

@[simp] theorem saveGateway_staticRoute : (saveGateway gateway s).staticRoute = s.staticRoute := by
  rw [saveGateway_eq]

@[simp] theorem saveGateway_oldStaticRoute :
    (saveGateway gateway s).oldStaticRoute = s.oldStaticRoute := by
  rw [saveGateway_eq]

@[simp] theorem saveGateway_gGwIp : (saveGateway gateway s).gGwIp = s.gGwIp := by
  rw [saveGateway_eq]

@[simp] theorem saveGateway_routes : (saveGateway gateway s).routes = s.routes := by
  rw [saveGateway_eq]

end

theorem buffer_encodeAll_cons (r : Route) (rest : List Route) :
    CString.buffer (encodeAll (r :: rest)) 0 = 0 ↔ r.width = 0 := by
  have hle := r.width_le
  change UInt8.ofNat r.width = 0 ↔ r.width = 0
  rw [← UInt8.toNat_inj]
  change r.width % 2 ^ 8 = 0 ↔ r.width = 0
  omega

variable {ack : Ack}

private theorem option121_of_read (h : ack.read = true) :
    (fillOptions ack.packet).option121 = encodeAll (ack.routes.getD []) ∧
      CString.buffer (fillOptions ack.packet).option121 0 ≠ 0 := by
  unfold Ack.read at h
  split at h
  next r rest hroutes =>
    obtain ⟨hwidth, hshort⟩ := of_decide_eq_true h
    have hcopied : (fillOptions ack.packet).option121 = encodeAll (r :: rest) := by
      simp [fillOptions, Ack.packet, hroutes, Option.filter, hshort]
    rw [hcopied, hroutes]
    exact ⟨rfl, fun hzero => hwidth ((buffer_encodeAll_cons r rest).mp hzero)⟩
  · cases h

private theorem option121_of_not_read (h : ack.read = false) :
    CString.buffer (fillOptions ack.packet).option121 0 = 0 := by
  unfold Ack.read at h
  split at h
  next r rest hroutes =>
    have hnot := of_decide_eq_false h
    simp only [fillOptions, Ack.packet, hroutes, Option.map_some, Option.filter]
    split
    next hshort =>
      apply (buffer_encodeAll_cons r rest).mpr
      by_contra hwidth
      exact hnot ⟨hwidth, of_decide_eq_true hshort⟩
    · rfl
  next hempty =>
    cases hroutes : ack.routes with
    | none => simp [fillOptions, Ack.packet, hroutes, CString.buffer]
    | some routes =>
      cases routes with
      | nil => simp [fillOptions, Ack.packet, hroutes, CString.buffer, encodeAll, Option.filter]
      | cons r rest => exact absurd hroutes (hempty r rest)

theorem runScript_packet (ack : Ack) (s : State) :
    runScript ack.packet s =
      saveGateway ack.gateway
        (if ack.read then { s with staticRoute := some (fileOf ack.entries) } else s) := by
  have hrouter : (fillOptions ack.packet).routerIp =
      (ack.routerAddress.map Address.text).getD [] := by
    simp [fillOptions, Ack.packet, Ack.routerAddress, Option.map_map, Function.comp_def]
  unfold runScript configSave Ack.gateway
  cases hread : ack.read with
  | true =>
    obtain ⟨hcopied, hnonempty⟩ := option121_of_read hread
    rw [if_neg hnonempty, hcopied, saveRoutes_encodeAll, hrouter]
    simp only [if_true, saveGateway, Ack.entries, Ack.zeroWidth]
    cases Client.zeroWidth (ack.routes.getD []) with
    | none => rfl
    | some x => rfl
  | false =>
    rw [if_pos (option121_of_not_read hread), hrouter]
    rfl

/-! ### Histories of ACKs -/

/-- No file of new routes is left over, and the routes are those of the old file. -/
structure Recorded (s : State) : Prop where
  staticRoute_eq : s.staticRoute = none
  routes_eq : ∃ old, s.oldStaticRoute.getD [] = fileOf old ∧ s.routes = old.toFinset

theorem handleAck_of_read (hread : ack.read = true) (h : Recorded s) :
    handleAck ack s =
      saveGateway ack.gateway
        { s with
          staticRoute := none
          oldStaticRoute := some (fileOf ack.entries)
          gGwIp := (((gatewaysOf ack.entries).map Address.text).foldl
            (note icmpDhcpAutoaclMax) (s.gGwIp, 0)).1
          routes := ack.entries.toFinset } := by
  obtain ⟨old, hold, hroutes⟩ := h.routes_eq
  have hscript := runScript_packet ack s
  rw [if_pos hread] at hscript
  have hold : (runScript ack.packet s).oldStaticRoute.getD [] = fileOf old := by
    rw [hscript, saveGateway_oldStaticRoute]
    exact hold
  have hnew : (runScript ack.packet s).staticRoute = some (fileOf ack.entries) := by
    rw [hscript, saveGateway_staticRoute]
  rw [handleAck, runStaticRoute_fileOf hold hnew, hscript]
  simp only [saveGateway_gGwIp, saveGateway_routes, hroutes, Finset.sdiff_self, Finset.empty_union]
  rw [saveGateway_eq, saveGateway_eq]

theorem handleAck_of_not_read (hread : ack.read = false)
    (h : s.staticRoute = none) : handleAck ack s = saveGateway ack.gateway s := by
  rw [handleAck, runScript_packet, hread]
  simp [runStaticRoute, h]

theorem Recorded.handleAck (h : Recorded s) (ack : Ack) : Recorded (handleAck ack s) := by
  cases hread : ack.read with
  | true =>
    rw [handleAck_of_read hread h]
    exact ⟨by simp, ack.entries, by simp, by simp⟩
  | false =>
    obtain ⟨old, hold, hroutes⟩ := h.routes_eq
    rw [handleAck_of_not_read hread h.staticRoute_eq]
    exact ⟨by simpa using h.staticRoute_eq, old, by simpa using hold, by simpa using hroutes⟩

/-- The routes are those that the ACK announces, and its default gateway is saved. -/
def Follows (ack : Ack) (s : State) : Prop :=
  s.routes = ack.entries.toFinset ∧ ∀ x, ack.zeroWidth = some x → s.gateway = some (x.text ++ [10])

/-- The option of the ACK is read; or it announces the routes that are there already, and its
default gateway is its router, or was saved before and it has no router. -/
def Suits (ack : Ack) (s : State) : Prop :=
  ack.read = true ∨
    s.routes = ack.entries.toFinset ∧
      ∀ x, ack.zeroWidth = some x →
        ack.routerAddress = some x ∨ ack.routerAddress = none ∧ s.gateway = some (x.text ++ [10])

/-- One ACK is followed exactly if it suits the state that it is handled in. -/
theorem follows_handleAck_iff (h : Recorded s) (ack : Ack) :
    Follows ack (handleAck ack s) ↔ Suits ack s := by
  unfold Follows Suits
  cases hread : ack.read with
  | true =>
    rw [handleAck_of_read hread h]
    simp only [saveGateway_routes, true_and, true_or, iff_true]
    intro x hx
    rw [Ack.gateway, if_pos hread, hx, Option.some_or, saveGateway_some]
  | false =>
    have hgateway : ack.gateway = ack.routerAddress := by
      simp [Ack.gateway, hread]
    rw [handleAck_of_not_read hread h.staticRoute_eq, saveGateway_routes, hgateway]
    simp only [Bool.false_eq_true, false_or]
    apply and_congr_right
    intro _
    apply forall₂_congr
    rw [saveGateway_eq]
    cases ack.routerAddress with
    | none => simp
    | some y => simp [Address.text_injective.eq_iff]

/-- Over any ACKs, the static routes and the saved default gateway follow each exactly if each
suits the state it is handled in; in particular if the option of each is read. -/
theorem static_routes_follow_lease_iff (s : State) (h : Recorded s) (acks : List Ack) :
    Allowed handleAck (fun ack s => Follows ack (handleAck ack s)) acks s ↔
      Allowed handleAck Suits acks s := by
  apply Allowed.iff_of_invariant (P := Recorded)
  · intro ack t ht
    exact follows_handleAck_iff ht ack
  · intro ack t ht _
    exact ht.handleAck ack
  · exact h

def boot : State where
  staticRoute := none
  oldStaticRoute := none
  gateway := none
  gwItem := none
  gGwIp := List.replicate icmpDhcpAutoaclMax []
  routes := ∅

theorem boot_recorded : Recorded boot :=
  ⟨rfl, [], rfl, rfl⟩

def defaultRoute : Route :=
  ⟨0, [], ⟨10, 0, 0, 1⟩, by omega, rfl⟩

def officeRoute : Route :=
  ⟨24, [192, 168, 5], ⟨10, 0, 0, 2⟩, by omega, rfl⟩

def officeAck : Ack :=
  ⟨some [officeRoute, defaultRoute], none, by decide⟩

theorem officeAck_followed :
    Allowed handleAck (fun ack s => Follows ack (handleAck ack s)) [officeAck] boot :=
  (static_routes_follow_lease_iff boot boot_recorded [officeAck]).mpr ⟨.inl rfl, trivial⟩

def defaultFirstAck : Ack :=
  ⟨some [defaultRoute, officeRoute], none, by decide⟩

def plainAck : Ack :=
  ⟨none, none, by decide⟩

/-- An option that begins with the default route is not read; routes stay when the next ACK has no
option. -/
theorem default_first_ignored_and_routes_left :
    ¬Follows defaultFirstAck (handleAck defaultFirstAck boot) ∧
      ¬Follows plainAck (handleAck plainAck (handleAck officeAck boot)) := by
  constructor
  · rintro ⟨hroutes, _⟩
    cases congrArg Finset.card hroutes
  · rintro ⟨hroutes, _⟩
    cases congrArg Finset.card hroutes

end EchoLife.Dhcp.Client
