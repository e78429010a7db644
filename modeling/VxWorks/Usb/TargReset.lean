import Mathlib.Data.List.Basic
import VxWorks.Usb.TargControl
import VxWorks.Usb.TargToggle

/-!
# Toggles that a request resets (usbTargLib.c)

Three requests of the host set data toggles back to DATA0: the one that clears a halted
endpoint, and the two that select a configuration and an interface. One routine serves
them. It goes over the pipes of the channel with a configuration, an interface and an
endpoint, each of which may be the constant that stands for any.

The endpoint of a request is an address: the number, and the direction in bit 7. The
routine compares it with the number of a pipe's endpoint as it is, so the address of an
IN endpoint is that of no pipe, and the address of an OUT endpoint is that of the pipes
in both directions. And an interface of the host's may be the constant.

A turn of the loop is a pipe with the endpoint ids that the driver is told in it.
-/

namespace VxWorks.Usb

/-- `ANY_CONFIGURATION`, `ANY_INTERFACE` and `ANY_ENDPOINT`. -/
def anyConfiguration : UInt16 := 0xffff

def anyInterface : UInt16 := 0xffff

def anyEndpoint : UInt16 := 0xffff

/-! ## Pipes -/

inductive EndpointDir where
  | out | inn
deriving DecidableEq, Repr

/-- What is read of the `USB_TARG_ENDPOINT_INFO` of an endpoint in use. -/
structure UsedEndpoint where
  endpointId : UInt16
  endpointNum : UInt16
  direction : EndpointDir
deriving DecidableEq, Repr

/-- A pipe as `usbTargPipeCreate` links it: the number has been checked, and the second
endpoint of a control pipe is the IN endpoint of the same number. -/
structure ConfiguredPipe where
  configuration : UInt16
  interface : UInt16
  endpoint : UsedEndpoint
  endpoint2 : Option UsedEndpoint
  dataToggle : DataToggle
  num_le : endpoint.endpointNum ≤ 15
  control : ∀ e, endpoint2 = some e →
    endpoint.direction = .out ∧ e.direction = .inn ∧ e.endpointNum = endpoint.endpointNum

namespace ConfiguredPipe

def endpoints (p : ConfiguredPipe) : List UsedEndpoint := p.endpoint :: p.endpoint2.toList

/-- The turn of a pipe that is reset. -/
def reset (p : ConfiguredPipe) : ConfiguredPipe × List UInt16 :=
  ({ p with dataToggle := .data0 }, p.endpoints.map UsedEndpoint.endpointId)

/-- The turn of any other pipe. -/
def keep (p : ConfiguredPipe) : ConfiguredPipe × List UInt16 := (p, [])

theorem reset_ne_keep (p : ConfiguredPipe) : p.reset ≠ p.keep := by
  intro h
  cases congrArg Prod.snd h

end ConfiguredPipe

/-- `resetDataToggle`. -/
def resetDataToggles (configuration interface endpoint : UInt16) (pipes : List ConfiguredPipe) :
    List (ConfiguredPipe × List UInt16) :=
  pipes.map fun p =>
    if configuration = anyConfiguration ∨ configuration = p.configuration then
      if interface = anyInterface ∨ interface = p.interface then
        if endpoint = anyEndpoint ∨ endpoint = p.endpoint.endpointNum then p.reset
        else p.keep
      else p.keep
    else p.keep

/-! ## Requests -/

/-- A `USB_SETUP`, its shorts as `FROM_LITTLEW` gives them. -/
structure SetupPacket where
  requestType : UInt8
  request : UInt8
  value : UInt16
  index : UInt16
  length : UInt16
deriving DecidableEq, Repr

def fromLittlew (lo hi : UInt8) : UInt16 := lo.toUInt16 ||| hi.toUInt16 <<< 8

/-- What `setupBfr` holds. -/
def SetupPacket.ofBfr : List UInt8 → Option SetupPacket
  | [requestType, request, v0, v1, i0, i1, l0, l1] =>
      some ⟨requestType, request, fromLittlew v0 v1, fromLittlew i0 i1, fromLittlew l0 l1⟩
  | _ => none

/-- CLEAR_FEATURE for the feature ENDPOINT_HALT of an endpoint. -/
def SetupPacket.ClearsHalt (s : SetupPacket) : Prop :=
  s.requestType = 0x02 ∧ s.request = 1 ∧ s.value = 0

def SetupPacket.SetsConfiguration (s : SetupPacket) : Prop :=
  s.requestType &&& 0x60 = 0 ∧ s.request = 9

def SetupPacket.SetsInterface (s : SetupPacket) : Prop :=
  s.requestType &&& 0x60 = 0 ∧ s.request = 11

section

variable (s : SetupPacket) (pipes : List ConfiguredPipe)

/-- What `requestClearFeature` does before it asks the application. -/
def clearFeatureToggles : List (ConfiguredPipe × List UInt16) :=
  if s.requestType = 0x02 ∧ s.value = 0 then
    resetDataToggles anyConfiguration anyEndpoint s.index pipes
  else pipes.map ConfiguredPipe.keep

/-- `requestSetConfiguration`, which takes the low byte. -/
def setConfigurationToggles : List (ConfiguredPipe × List UInt16) :=
  resetDataToggles s.value.toUInt8.toUInt16 anyInterface anyEndpoint pipes

def setInterfaceToggles : List (ConfiguredPipe × List UInt16) :=
  resetDataToggles anyConfiguration s.index anyEndpoint pipes

/-- The toggles under `parseSetupPacket`. -/
def setupToggles : List (ConfiguredPipe × List UInt16) :=
  if s.requestType &&& 0x60 = 0 then
    match s.request.toNat with
    | 1 => clearFeatureToggles s pipes
    | 9 => setConfigurationToggles s pipes
    | 11 => setInterfaceToggles s pipes
    | _ => pipes.map ConfiguredPipe.keep
  else pipes.map ConfiguredPipe.keep

end

/-- `parseSetupPacket` for a control pipe in the state `t`, with the toggles of the pipes of
the channel. -/
def parseSetupBfr (tcd : TcdAnswers) (app : AppAnswers) (bfr : List UInt8) (t : TargTcd)
    (pipes : List ConfiguredPipe) : (Bool × TargTcd) × List (ConfiguredPipe × List UInt16) :=
  match SetupPacket.ofBfr bfr with
  | none => ((false, t), pipes.map ConfiguredPipe.keep)
  | some s =>
      (parseSetupPacket tcd app bfr.length ⟨s.requestType, s.request⟩ t, setupToggles s pipes)

/-! ## What a request is about -/

/-- The pipes that `sel` holds of are reset, and no others. -/
def ResetsExactly (sel : ConfiguredPipe → Prop) (pipes : List ConfiguredPipe)
    (turns : List (ConfiguredPipe × List UInt16)) : Prop :=
  List.Forall₂ (fun p turn => (sel p → turn = p.reset) ∧ (¬ sel p → turn = p.keep)) pipes turns

/-- The index of a request is the address of the endpoint. -/
def UsedEndpoint.HasAddress (index : UInt16) (e : UsedEndpoint) : Prop :=
  e.endpointNum = index &&& 0xf ∧ e.direction = if index &&& 0x80 = 0 then .out else .inn

/-- One of the pipe's endpoints has the address. -/
def ConfiguredPipe.HasAddress (index : UInt16) (p : ConfiguredPipe) : Prop :=
  ∃ e ∈ p.endpoints, e.HasAddress index

/-- Every request resets the pipes it is about, and no others. -/
structure TogglesRight (s : SetupPacket) (pipes : List ConfiguredPipe)
    (turns : List (ConfiguredPipe × List UInt16)) : Prop where
  clearsHalt : s.ClearsHalt → ResetsExactly (ConfiguredPipe.HasAddress s.index) pipes turns
  setsConfiguration : s.SetsConfiguration →
    ResetsExactly (fun p => p.configuration = s.value.toUInt8.toUInt16) pipes turns
  setsInterface : s.SetsInterface →
    ResetsExactly (fun p => p.interface = s.index) pipes turns

/-! ## When they are right -/

/-- What the address of a halted endpoint and the index of an interface must be. -/
structure WellAddressed (s : SetupPacket) (pipes : List ConfiguredPipe) : Prop where
  /-- The number of an OUT endpoint is no number of a pipe that has an IN endpoint only. -/
  out : s.ClearsHalt → s.index ≤ 15 →
    ∀ p ∈ pipes, p.endpoint.endpointNum = s.index → p.endpoint.direction = .out
  /-- No pipe has an endpoint with any other address, be it of an IN endpoint. -/
  inn : s.ClearsHalt → 15 < s.index → s.index ≠ 0xffff → ∀ p ∈ pipes, ¬ p.HasAddress s.index
  /-- The constant is the address of all the pipes, the IN endpoint 15, or else not there. -/
  any : s.ClearsHalt → s.index = 0xffff → ∀ p ∈ pipes, p.HasAddress 0xffff
  interface : s.SetsInterface → s.index = 0xffff → ∀ p ∈ pipes, p.interface = 0xffff

section

variable {s : SetupPacket} {pipes : List ConfiguredPipe} {p : ConfiguredPipe}

/-- A turn says whether it is a reset. -/
theorem resetsExactly_map_iff {sel q : ConfiguredPipe → Prop} [DecidablePred q] :
    ResetsExactly sel pipes (pipes.map fun p => if q p then p.reset else p.keep) ↔
      ∀ p ∈ pipes, q p ↔ sel p := by
  rw [ResetsExactly]
  rw [List.forall₂_map_right_iff, List.forall₂_same]
  refine forall₂_congr ?_
  intro p _
  by_cases hq : q p
  · rw [if_pos hq]
    refine ⟨fun h => ⟨?_, fun _ => hq⟩, fun h => ⟨fun _ => rfl, ?_⟩⟩
    · intro _
      by_contra hsel
      exact p.reset_ne_keep (h.2 hsel)
    · intro hn
      exact absurd (h.mp hq) hn
  · rw [if_neg hq]
    refine ⟨fun h => ⟨fun hq' => absurd hq' hq, ?_⟩,
      fun h => ⟨fun hsel => absurd (h.mpr hsel) hq, fun _ => rfl⟩⟩
    intro hsel
    exact absurd (h.1 hsel).symm p.reset_ne_keep

theorem resetDataToggles_endpoint (endpoint : UInt16) :
    resetDataToggles anyConfiguration anyEndpoint endpoint pipes = pipes.map fun p =>
      if endpoint = 0xffff ∨ endpoint = p.endpoint.endpointNum then p.reset else p.keep := by
  rw [resetDataToggles]
  refine List.map_congr_left ?_
  intro p _
  rw [if_pos (.inl rfl), if_pos (.inl rfl)]
  rfl

theorem resetDataToggles_interface (interface : UInt16) :
    resetDataToggles anyConfiguration interface anyEndpoint pipes = pipes.map fun p =>
      if interface = 0xffff ∨ interface = p.interface then p.reset else p.keep := by
  rw [resetDataToggles]
  refine List.map_congr_left ?_
  intro p _
  simp only [true_or, if_true]
  rfl

theorem resetDataToggles_configuration (configuration : UInt16)
    (hany : configuration ≠ 0xffff) :
    resetDataToggles configuration anyInterface anyEndpoint pipes = pipes.map fun p =>
      if configuration = p.configuration then p.reset else p.keep := by
  rw [resetDataToggles]
  refine List.map_congr_left ?_
  intro p _
  have hor : (configuration = anyConfiguration ∨ configuration = p.configuration) ↔
      configuration = p.configuration := or_iff_right hany
  simp only [hor, true_or, if_true]

theorem setupToggles_clearsHalt (h : s.ClearsHalt) :
    setupToggles s pipes = resetDataToggles anyConfiguration anyEndpoint s.index pipes := by
  obtain ⟨htype, hreq, hvalue⟩ := h
  unfold setupToggles clearFeatureToggles
  rw [htype, hreq, hvalue]
  rfl

theorem setupToggles_setsConfiguration (h : s.SetsConfiguration) :
    setupToggles s pipes =
      resetDataToggles s.value.toUInt8.toUInt16 anyInterface anyEndpoint pipes := by
  obtain ⟨htype, hreq⟩ := h
  unfold setupToggles
  rw [if_pos htype, hreq]
  rfl

theorem setupToggles_setsInterface (h : s.SetsInterface) :
    setupToggles s pipes = resetDataToggles anyConfiguration s.index anyEndpoint pipes := by
  obtain ⟨htype, hreq⟩ := h
  unfold setupToggles
  rw [if_pos htype, hreq]
  rfl

theorem and_fifteen_of_le {n : UInt16} (h : n ≤ 15) : n &&& 0xf = n := by
  have hlt : n.toNat ≤ 15 := h
  apply UInt16.toNat.inj
  rw [UInt16.toNat_and]
  show n.toNat &&& (2 ^ 4 - 1) = n.toNat
  rw [Nat.and_two_pow_sub_one_eq_mod]
  omega

theorem and_dir_of_le {n : UInt16} (h : n ≤ 15) : n &&& 0x80 = 0 := by
  have hand : n &&& 0x80 = (n &&& 0xf) &&& 0x80 := by rw [and_fifteen_of_le h]
  rw [hand, UInt16.and_assoc]
  exact UInt16.and_zero

theorem hasAddress_iff_of_le {index : UInt16} (hle : index ≤ 15) :
    p.HasAddress index ↔ p.endpoint.endpointNum = index ∧ p.endpoint.direction = .out := by
  unfold ConfiguredPipe.HasAddress UsedEndpoint.HasAddress
  rw [and_fifteen_of_le hle, if_pos (and_dir_of_le hle)]
  constructor
  · rintro ⟨e, he, hnum, hdir⟩
    rcases List.mem_cons.mp he with rfl | he
    · exact ⟨hnum, hdir⟩
    · obtain ⟨hout, hinn, -⟩ := p.control e (Option.mem_toList.mp he)
      rw [hinn] at hdir
      cases hdir
  · rintro ⟨hnum, hdir⟩
    exact ⟨p.endpoint, List.mem_cons_self, hnum, hdir⟩

theorem clears_right_iff (h : s.ClearsHalt) :
    ResetsExactly (ConfiguredPipe.HasAddress s.index) pipes (setupToggles s pipes) ↔
      (s.index ≤ 15 → ∀ p ∈ pipes, p.endpoint.endpointNum = s.index →
        p.endpoint.direction = .out) ∧
      (15 < s.index → s.index ≠ 0xffff → ∀ p ∈ pipes, ¬ p.HasAddress s.index) ∧
      (s.index = 0xffff → ∀ p ∈ pipes, p.HasAddress 0xffff) := by
  rw [setupToggles_clearsHalt h, resetDataToggles_endpoint, resetsExactly_map_iff]
  by_cases hany : s.index = 0xffff
  · rw [hany]
    have hlarge : ¬ (0xffff : UInt16) ≤ 15 := by decide
    simp [hlarge]
  by_cases hle : s.index ≤ 15
  · have hnot : ¬ 15 < s.index := UInt16.not_lt.mpr hle
    simp only [hany, hle, hnot, false_or, hasAddress_iff_of_le hle]
    grind
  · have hlt : 15 < s.index := UInt16.not_le.mp hle
    have hnum (p : ConfiguredPipe) : ¬ s.index = p.endpoint.endpointNum :=
      fun heq => hle (heq ▸ p.num_le)
    simp only [hany, hle, hlt, hnum, false_or]
    grind

theorem sets_interface_right_iff (h : s.SetsInterface) :
    ResetsExactly (fun p => p.interface = s.index) pipes (setupToggles s pipes) ↔
      (s.index = 0xffff → ∀ p ∈ pipes, p.interface = 0xffff) := by
  rw [setupToggles_setsInterface h, resetDataToggles_interface, resetsExactly_map_iff]
  by_cases hany : s.index = 0xffff
  · simp [hany]
  · simp only [hany, false_or, eq_comm, implies_true, IsEmpty.forall_iff]

/-- The low byte of a short is not the constant. -/
theorem sets_configuration_right (h : s.SetsConfiguration) :
    ResetsExactly (fun p => p.configuration = s.value.toUInt8.toUInt16) pipes
      (setupToggles s pipes) := by
  have hany : s.value.toUInt8.toUInt16 ≠ 0xffff := by
    intro heq
    have hlt := s.value.toUInt8.toNat_lt
    have hval : s.value.toUInt8.toNat = 0xffff := congrArg UInt16.toNat heq
    omega
  rw [setupToggles_setsConfiguration h, resetDataToggles_configuration _ hany,
    resetsExactly_map_iff]
  exact fun p _ => eq_comm

end

/-- A request resets the toggles of the pipes it is about, and of no others, exactly if what it
addresses is addressed as the routine compares it. -/
theorem request_toggles_right_iff (tcd : TcdAnswers) (app : AppAnswers) (t : TargTcd)
    (pipes : List ConfiguredPipe) {bfr : List UInt8} {s : SetupPacket}
    (h : SetupPacket.ofBfr bfr = some s) :
    TogglesRight s pipes (parseSetupBfr tcd app bfr t pipes).2 ↔ WellAddressed s pipes := by
  unfold parseSetupBfr
  rw [h]
  constructor
  · intro hright
    refine ⟨?_, ?_, ?_, ?_⟩
    · intro hc
      exact ((clears_right_iff hc).mp (hright.clearsHalt hc)).1
    · intro hc
      exact ((clears_right_iff hc).mp (hright.clearsHalt hc)).2.1
    · intro hc
      exact ((clears_right_iff hc).mp (hright.clearsHalt hc)).2.2
    · intro hi
      exact (sets_interface_right_iff hi).mp (hright.setsInterface hi)
  · intro hwell
    refine ⟨?_, sets_configuration_right, ?_⟩
    · intro hc
      exact (clears_right_iff hc).mpr ⟨hwell.out hc, hwell.inn hc, hwell.any hc⟩
    · intro hi
      exact (sets_interface_right_iff hi).mpr (hwell.interface hi)

/-- A pipe on one endpoint. -/
def ConfiguredPipe.bulk (endpointNum : UInt16) (direction : EndpointDir)
    (hle : endpointNum ≤ 15) : ConfiguredPipe where
  configuration := 1
  interface := 0
  endpoint := ⟨3, endpointNum, direction⟩
  endpoint2 := none
  dataToggle := .data1
  num_le := hle
  control := nofun

/-- The halt of an OUT endpoint is cleared, beside an IN endpoint of another number. -/
theorem request_toggles_right_out :
    TogglesRight ⟨2, 1, 0, 1, 0⟩
      [.bulk 1 .out (by decide), .bulk 2 .inn (by decide)]
      (parseSetupBfr ⟨fun _ => true, fun _ => none⟩ (fun _ => some true) [2, 1, 0, 0, 1, 0, 0, 0]
        attached [.bulk 1 .out (by decide), .bulk 2 .inn (by decide)]).2 := by
  have hlarge : ¬ (15 : UInt16) < 1 := by decide
  have hconst : ¬ (1 : UInt16) = 0xffff := by decide
  refine (request_toggles_right_iff _ _ _ _ rfl).mpr
    ⟨?_, fun _ hlt => absurd hlt hlarge, fun _ h => absurd h hconst,
      fun _ h => absurd h hconst⟩
  intro _ _ p hp hnum
  rcases List.mem_cons.mp hp with rfl | hp
  · rfl
  · rw [List.mem_singleton.mp hp] at hnum
    exact absurd hnum (by decide)

/-- The halt of an IN endpoint is cleared, and its toggle stays as it was. -/
theorem inn_toggle_stays :
    ¬ ∀ (tcd : TcdAnswers) (app : AppAnswers) (t : TargTcd) (pipes : List ConfiguredPipe)
        (bfr : List UInt8) (s : SetupPacket), SetupPacket.ofBfr bfr = some s →
      TogglesRight s pipes (parseSetupBfr tcd app bfr t pipes).2 := by
  intro h
  have hright := h ⟨fun _ => true, fun _ => none⟩ (fun _ => some true) attached
    [.bulk 1 .inn (by decide)] [2, 1, 0, 0, 0x81, 0, 0, 0] ⟨2, 1, 0, 0x81, 0⟩ rfl
  have hreset := hright.clearsHalt ⟨rfl, rfl, rfl⟩
  have haddr : (ConfiguredPipe.bulk 1 .inn (by decide)).HasAddress 0x81 :=
    ⟨_, List.mem_cons_self, by decide, by decide⟩
  cases hreset with
  | cons hturn _ => exact absurd (congrArg Prod.snd (hturn.1 haddr)) (by decide)

end VxWorks.Usb
