import Mainboard.Proofs.Machine.SnapshotRoundTrip

/-!
# Snapshots of later minor versions

A component reads its own tags from a snapshot and nothing else. So it cannot tell two blobs apart
that have the same payloads under these tags and the same major version: fields in another order,
fields with other tags and other minor versions go unseen, also by a restore that fails halfway. A
machine hands three of its payloads on to its parts, and inside of these the same holds.
-/
namespace Mainboard

/-! ## What a container shows of some tags -/

namespace Container

/-- The component has the same major version in both, and the payloads under these tags are the
same. -/
structure AgreeOn (tags : List UInt16) (c c' : Container) : Prop where
  major : c.device.major = c'.device.major
  bytes : ∀ tag ∈ tags, c.bytes tag = c'.bytes tag

def Alike (id : DeviceId) (tags : List UInt16) (input input' : Bytes) : Prop :=
  ∃ c c', parse input id = .ok c ∧ parse input' id = .ok c' ∧ c.AgreeOn tags c'

variable {c c' : Container} {tags : List UInt16}

theorem AgreeOn.u32 (h : c.AgreeOn tags c') (tag : UInt16) (htag : tag ∈ tags) :
    c.u32 tag = c'.u32 tag := by
  unfold Container.u32 word
  rw [h.bytes tag htag]

theorem AgreeOn.bool (h : c.AgreeOn tags c') (tag : UInt16) (htag : tag ∈ tags) :
    c.bool tag = c'.bool tag := by
  unfold Container.bool u8 word
  rw [h.bytes tag htag]

/-- What a later minor version may write: its own minor version, further fields, and all fields in
another order. -/
def later (c : Container) (minor : UInt16) (further : Fields) : Container :=
  { c with device := { c.device with minor := minor }, fields := further ++ c.fields.reverse }

theorem alike_later (h : c.WellFormed) {further : Fields} (hfit : further.Fit)
    (hdistinct : (further ++ c.fields.reverse).tags.Nodup) (hunknown : ∀ f ∈ further, f.1 ∉ tags)
    (minor : UInt16) : Alike c.id tags (c.later minor further).encode c.encode := by
  have hreadable : (c.later minor further).Readable := by
    refine ⟨h.format, fun f hf => ?_, hdistinct⟩
    rcases List.mem_append.mp hf with hf | hf
    · exact hfit f hf
    · exact h.fit f (List.mem_reverse.mp hf)
  refine ⟨_, _, parse_of_readable hreadable, parse_encode h, rfl, fun tag htag => ?_⟩
  rw [bytes_collected hdistinct]
  apply Option.ext
  intro value
  have hother : (tag, value) ∉ further := fun hmem => hunknown _ hmem htag
  have hmem : (tag, value) ∈ further ++ c.fields.reverse ↔ (tag, value) ∈ c.fields := by
    rw [List.mem_append, or_iff_right hother, List.mem_reverse]
  exact (Fields.find?_eq_some_iff hdistinct).trans
    (hmem.trans (Fields.find?_eq_some_iff h.ordered.nodup_tags).symm)

theorem parseFor_of_parse {input : Bytes} {id : DeviceId} (h : parse input id = .ok c)
    (device : Version) : parseFor input id device =
      if c.device.major = device.major then .ok c
      else .error (.unsupportedDevice device.major c.device.major) := by
  unfold parseFor requireMajor
  rw [h]
  simp only [bind, Except.bind]
  split_ifs <;> rfl

theorem Alike.parseFor {id : DeviceId} {input input' : Bytes} (h : Alike id tags input input')
    (device : Version) :
    (∃ e, parseFor input id device = .error e ∧ parseFor input' id device = .error e) ∨
    ∃ c c', parseFor input id device = .ok c ∧ parseFor input' id device = .ok c' ∧
      c.AgreeOn tags c' := by
  obtain ⟨c, c', hc, hc', h⟩ := h
  rw [parseFor_of_parse hc, parseFor_of_parse hc', ← h.major]
  split_ifs
  · exact Or.inr ⟨c, c', rfl, rfl, h⟩
  · exact Or.inl ⟨_, rfl, rfl⟩

end Container

open Container

variable {input input' : Bytes}

/-! ## The parts of a machine -/

namespace Memory

def knownTags : List UInt16 :=
  [Tag.ramSize, Tag.gateA20, Tag.mappedCount, Tag.pagingActive, Tag.tlbFlush, Tag.blocks, Tag.index,
    Tag.regionCount]

variable {c c' : Container}

theorem stage_congr (h : c.AgreeOn knownTags c') (m : Memory) : m.stage c = m.stage c' := by
  unfold stage checkRegions parseList
  rw [h.u32 Tag.regionCount (by decide), h.u32 Tag.ramSize (by decide),
    h.bool Tag.gateA20 (by decide), h.bytes Tag.blocks (by decide),
    h.bytes Tag.index (by decide)]

theorem adoptFlags_congr (h : c.AgreeOn knownTags c') (m : Memory) :
    m.adoptFlags c = m.adoptFlags c' := by
  unfold adoptFlags
  rw [h.u32 Tag.mappedCount (by decide), h.bool Tag.pagingActive (by decide),
    h.bool Tag.tlbFlush (by decide)]

theorem load_congr (h : Alike deviceId knownTags input input') (m : Memory) :
    m.load input = m.load input' := by
  unfold load
  obtain ⟨e, hc, hc'⟩ | ⟨c, c', hc, hc', h⟩ := h.parseFor deviceVersion
  · rw [hc, hc']
  · rw [hc, hc']
    dsimp only
    rw [stage_congr h]
    cases m.stage c' with
    | error e => rfl
    | ok s => exact adoptFlags_congr h (m.adopt s)

end Memory

namespace Controller

def knownTags : List UInt16 := [Tag.master, Tag.slave, Tag.intrRaise, Tag.intrClear]

theorem restored_congr (h : Alike deviceId knownTags input input') (c : Controller) :
    c.restored input = c.restored input' := by
  unfold restored restoreChip
  obtain ⟨e, hr, hr'⟩ | ⟨r, r', hr, hr', h⟩ := h.parseFor deviceVersion
  · rw [hr, hr']
  · simp only [bind, Except.bind, hr, hr', h.bytes Tag.master (by decide),
      h.bytes Tag.slave (by decide), h.bool Tag.intrRaise (by decide),
      h.bool Tag.intrClear (by decide)]

theorem load_congr (h : Alike deviceId knownTags input input') (c : Controller) :
    c.load input = c.load input' := by
  unfold load
  rw [restored_congr h]

end Controller

namespace Dispatcher

def knownTags : List UInt16 := [Tag.sinceDelivery, Tag.trapArmed, Tag.traceHit, Tag.tripleFaulted]

theorem restored_congr (h : Alike deviceId knownTags input input') (d : Dispatcher) :
    d.restored input = d.restored input' := by
  unfold restored
  obtain ⟨e, hr, hr'⟩ | ⟨r, r', hr, hr', h⟩ := h.parseFor deviceVersion
  · rw [hr, hr']
  · simp only [bind, Except.bind, hr, hr', h.u32 Tag.sinceDelivery (by decide),
      h.bool Tag.trapArmed (by decide), h.bool Tag.traceHit (by decide),
      h.bool Tag.tripleFaulted (by decide)]

theorem load_congr (h : Alike deviceId knownTags input input') (d : Dispatcher) :
    d.load input = d.load input' := by
  unfold load
  rw [restored_congr h]

end Dispatcher

/-! ## The machine -/

namespace Machine

def knownTags : List UInt16 := [Tag.memory, Tag.controller, Tag.dispatcher]

/-- Payloads that the part with this identifier and these tags cannot tell apart. -/
def Exchangeable (id : DeviceId) (tags : List UInt16) (payload payload' : Bytes) : Prop :=
  payload = payload' ∨ Alike id tags payload payload'

/-- The same parts are there in both, and each finds payloads that it cannot tell apart. -/
structure AgreeInside (c c' : Container) : Prop where
  major : c.device.major = c'.device.major
  memory : Option.Rel (Exchangeable Memory.deviceId Memory.knownTags)
    (c.bytes Tag.memory) (c'.bytes Tag.memory)
  controller : Option.Rel (Exchangeable Controller.deviceId Controller.knownTags)
    (c.bytes Tag.controller) (c'.bytes Tag.controller)
  dispatcher : Option.Rel (Exchangeable Dispatcher.deviceId Dispatcher.knownTags)
    (c.bytes Tag.dispatcher) (c'.bytes Tag.dispatcher)

/-- Two blobs of a machine that agree inside the payloads for its parts. -/
def AlikeInside (input input' : Bytes) : Prop :=
  ∃ c c', parse input deviceId = .ok c ∧ parse input' deviceId = .ok c' ∧ AgreeInside c c'

theorem alikeInside_of_alike (h : Alike deviceId knownTags input input') :
    AlikeInside input input' := by
  obtain ⟨c, c', hc, hc', h⟩ := h
  have hsame : ∀ {id tags} (payload : Option Bytes),
      Option.Rel (Exchangeable id tags) payload payload := by
    intro id tags payload
    cases payload with
    | none => exact .none
    | some payload => exact .some (Or.inl rfl)
  refine ⟨c, c', hc, hc', h.major, ?_, ?_, ?_⟩
  · rw [h.bytes Tag.memory (by decide)]
    exact hsame _
  · rw [h.bytes Tag.controller (by decide)]
    exact hsame _
  · rw [h.bytes Tag.dispatcher (by decide)]
    exact hsame _

variable {σ δ : Type}

structure Staged.Same (s s' : Staged) : Prop where
  memory : ∀ m : Memory, m.load s.memory = m.load s'.memory
  controller : s.controller = s'.controller
  dispatcher :
    Option.Rel (fun payload payload' => ∀ d : Dispatcher, d.load payload = d.load payload')
    s.dispatcher s'.dispatcher

theorem stage_congr (h : AlikeInside input input') :
    (∃ e, stage input = .error e ∧ stage input' = .error e) ∨
    ∃ s s', stage input = .ok s ∧ stage input' = .ok s' ∧ s.Same s' := by
  obtain ⟨c, c', hc, hc', hmajor, hmemory, hcontroller, hdispatcher⟩ := h
  unfold stage required
  rw [parseFor_of_parse hc, parseFor_of_parse hc', ← hmajor]
  split_ifs
  case neg => exact Or.inl ⟨_, rfl, rfl⟩
  simp only [bind, Except.bind]
  generalize c.bytes Tag.memory = memory, c'.bytes Tag.memory = memory' at hmemory ⊢
  generalize c.bytes Tag.controller = pair, c'.bytes Tag.controller = pair' at hcontroller ⊢
  generalize c.bytes Tag.dispatcher = saved, c'.bytes Tag.dispatcher = saved' at hdispatcher ⊢
  cases hmemory with
  | none => exact Or.inl ⟨_, rfl, rfl⟩
  | @some memory memory' hmemory =>
    have hload : ∀ m : Memory, m.load memory = m.load memory' := fun m =>
      hmemory.elim (congrArg m.load) fun h => Memory.load_congr h m
    cases hcontroller with
    | none => exact Or.inl ⟨_, rfl, rfl⟩
    | @some pair pair' hcontroller =>
      have hrestored : Controller.new.restored pair = Controller.new.restored pair' :=
        hcontroller.elim (congrArg _) fun h => Controller.restored_congr h .new
      dsimp only
      rw [hrestored]
      cases Controller.new.restored pair' with
      | error e => exact Or.inl ⟨_, rfl, rfl⟩
      | ok controller =>
        cases hdispatcher with
        | none => exact Or.inr ⟨_, _, rfl, rfl, hload, rfl, .none⟩
        | @some saved saved' hdispatcher =>
          have hsaved : ∀ d : Dispatcher, d.restored saved = d.restored saved' := fun d =>
            hdispatcher.elim (congrArg _) fun h => Dispatcher.restored_congr h d
          dsimp only
          rw [hsaved]
          cases Dispatcher.default.restored saved' with
          | error e => exact Or.inl ⟨_, rfl, rfl⟩
          | ok d =>
            refine Or.inr ⟨_, _, rfl, rfl, hload, rfl, .some fun d => ?_⟩
            unfold Dispatcher.load
            rw [hsaved]

theorem load_congr (h : AlikeInside input input') (m : Machine σ δ) :
    m.load input = m.load input' := by
  unfold load
  rcases stage_congr h with ⟨e, hs, hs'⟩ | ⟨s, s', hs, hs', hmemory, hcontroller, hdispatcher⟩
  · rw [hs, hs']
  · rw [hs, hs']
    dsimp only
    rw [hmemory, hcontroller]
    cases m.memory.load s'.memory with
    | error e memory => rfl
    | ok u memory =>
      generalize s.dispatcher = saved, s'.dispatcher = saved' at hdispatcher ⊢
      cases hdispatcher with
      | none => rfl
      | some hsaved =>
        dsimp only
        rw [hsaved]

/-- Two blobs of a bus, a pair of chips, a dispatcher or a machine with the same major version and
the same payload under each tag that the component reads: a restore from either has the same outcome
and leaves the same state, whatever the state before, and whether it succeeds or fails. For a
machine the payloads may themselves be blobs that its parts cannot tell apart. -/
theorem unknown_fields_unseen :
    (∀ (m : Memory) (input input' : Bytes),
      Alike Memory.deviceId Memory.knownTags input input' → m.load input = m.load input') ∧
    (∀ (c : Controller) (input input' : Bytes),
      Alike Controller.deviceId Controller.knownTags input input' → c.load input = c.load input') ∧
    (∀ (d : Dispatcher) (input input' : Bytes),
      Alike Dispatcher.deviceId Dispatcher.knownTags input input' → d.load input = d.load input') ∧
    (∀ (m : Machine σ δ) (input input' : Bytes),
      Alike deviceId knownTags input input' → m.load input = m.load input') ∧
    ∀ (m : Machine σ δ) (input input' : Bytes),
      AlikeInside input input' → m.load input = m.load input' :=
  ⟨fun m _ _ h => Memory.load_congr h m, fun c _ _ h => Controller.load_congr h c,
    fun d _ _ h => Dispatcher.load_congr h d,
    fun m _ _ h => load_congr (alikeInside_of_alike h) m, fun m _ _ h => load_congr h m⟩

/-- The restore of a bus with a flag that is neither true nor false fails after the bus has been
changed. It fails alike if later versions have written the bus, the chips, the dispatcher or the
machine around them. -/
theorem later_versions_load :
    let bus := (Container.empty Memory.deviceId Memory.deviceVersion).set Memory.Tag.tlbFlush [2]
    let chips := Controller.new.toContainer
    let counts := Dispatcher.default.toContainer
    let board := packed bus.encode .new .default
    let newer (c : Container) : Bytes := (c.later 3 [(99, [1, 2, 3]), (50, [])]).encode
    let inside : Container := ⟨.format, deviceId, deviceVersion, [(Tag.memory, newer bus),
      (Tag.controller, newer chips), (Tag.dispatcher, newer counts)]⟩
    let m : Machine PinLog Empty := assemble .default ⟨[]⟩ #[]
    m.memory.load (newer bus) = m.memory.load bus.encode ∧
      m.controller.load (newer chips) = m.controller.load chips.encode ∧
      m.core.dispatcher.load (newer counts) = m.core.dispatcher.load counts.encode ∧
      m.load (newer board) = m.load board.encode ∧ m.load inside.encode = m.load board.encode := by
  intro bus chips counts board newer inside m
  obtain ⟨hmemory, hcontroller, hdispatcher, hmachine, hinside⟩ :=
    unknown_fields_unseen (σ := PinLog) (δ := Empty)
  have hbus : bus.WellFormed := (Container.wellFormed_empty _ _).set _ (by decide)
  have hboard : board.WellFormed := wellFormed_packed (by decide) .new .default
  have hfit : Fields.Fit [(99, [1, 2, 3]), (50, [])] := by decide
  have hbus' : Alike Memory.deviceId Memory.knownTags (newer bus) bus.encode :=
    alike_later hbus hfit (by decide) (by decide) 3
  have hchips' : Alike Controller.deviceId Controller.knownTags (newer chips) chips.encode :=
    alike_later Controller.new.wellFormed_toContainer hfit (by decide) (by decide) 3
  have hcounts' : Alike Dispatcher.deviceId Dispatcher.knownTags (newer counts) counts.encode :=
    alike_later Dispatcher.default.wellFormed_toContainer hfit (by decide) (by decide) 3
  have hboard' : Alike deviceId knownTags (newer board) board.encode :=
    alike_later hboard hfit (by decide) (by decide) 3
  have hfields : inside.WellFormed := ⟨rfl, by decide +kernel, by decide +kernel⟩
  refine ⟨hmemory _ _ _ hbus', hcontroller _ _ _ hchips', hdispatcher _ _ _ hcounts',
    hmachine m _ _ hboard', hinside m _ _ ⟨_, _, Container.parse_encode hfields,
      Container.parse_encode hboard, rfl, .some (Or.inr hbus'), .some (Or.inr hchips'),
      .some (Or.inr hcounts')⟩⟩

end Machine
end Mainboard
