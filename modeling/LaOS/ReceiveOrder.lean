import LaOS.ReceivePages

/-!
# Order of received packets

The packets that the device wrote are, in order, those dequeued, those in the software
queue, and those in the descriptors up to the device's head.
-/

namespace LaOS.Receive

open Option List Function RingSlots

namespace Producer

def first (rxTail : Nat) : Producer → Nat
  | .idle => rxTail
  | .pushed scan _ => (scan.index + 1) % numRxDesc
  | .scanning scan | .getting scan | .allocating scan | .prepared scan _ | .full scan _
  | .freeing scan _ | .stopped scan | .stored scan => scan.index

/-- The number of packets that a call has put into the queue and not published. -/
def passed : Producer → Nat
  | .idle => 0
  | .pushed scan _ => scan.count + 1
  | .scanning scan | .getting scan | .allocating scan | .prepared scan _ | .full scan _
  | .freeing scan _ | .stopped scan | .stored scan => scan.count

/-- The descriptor whose packet is in the queue and that is not bound again. -/
def busy : Producer → Option Nat
  | .pushed scan _ => some scan.index
  | _ => none

/-- The local variables of a call fit together, and it has seen a filled descriptor where
it takes one. -/
def LocalOk (rdt rxTail waiting : Nat) : Producer → Prop
  | .idle => rxTail = (rdt + 1) % numRxDesc
  | .scanning scan | .full scan _ | .freeing scan _ | .stopped scan =>
    rxTail = (rdt + 1) % numRxDesc ∧ (0 < scan.count → scan.last = (rdt + scan.count) % numRxDesc)
  | .getting scan | .allocating scan | .prepared scan _ =>
    rxTail = (rdt + 1) % numRxDesc ∧
      (0 < scan.count → scan.last = (rdt + scan.count) % numRxDesc) ∧ 0 < waiting
  | .pushed scan _ =>
    rxTail = (rdt + 1) % numRxDesc ∧ scan.index = (rdt + 1 + scan.count) % numRxDesc
  | .stored scan => rxTail = scan.index ∧ 0 < scan.count ∧ scan.last = (rdt + scan.count) % numRxDesc

end Producer

namespace State

def first (s : State) : Nat := s.producer.first s.rxTail

def waitingSlots (s : State) : List Nat :=
  slots numRxDesc s.first ((s.rdh + numRxDesc - s.first) % numRxDesc)

end State

structure Window (s : State) (waiting : Nat) : Prop where
  bound : s.rdt < numRxDesc
  first : s.first = (s.rdt + 1 + s.producer.passed) % numRxDesc
  head : s.rdh = (s.rdt + 1 + s.producer.passed + waiting) % numRxDesc
  room : s.producer.passed + waiting < numRxDesc
  dma : s.device ≠ .idle → s.producer.passed + waiting + 1 < numRxDesc
  dd : ∀ i < numRxDesc, (s.ring i).dd = true ↔
    i ∈ slots numRxDesc s.first waiting ∨ s.producer.busy = some i
  locals : s.producer.LocalOk s.rdt s.rxTail waiting

def DeviceOk (s : State) : Prop :=
  match s.device with
  | .idle => True
  | .copied data => (s.memory (s.addr s.rdh)).take data.length = data
  | .measured data => (s.memory (s.addr s.rdh)).take data.length = data ∧
      (s.ring s.rdh).length = data.length

structure Packets (hhdm : Nat) (s : State) (waiting : Nat) : Prop where
  order : s.arrived = s.delivered ++ s.queue.contents.map (s.packet hhdm) ++
    (slots numRxDesc s.first waiting).map fun i =>
      s.packet hhdm (s.entryAt i)
  held : ∀ entry ∈ s.held, s.packet hhdm entry.1 = entry.2
  device : DeviceOk s

section Steps

variable {hhdm waiting : Nat} {s after : State} {i : Nat}

section

variable (window : Window s waiting)

include window

theorem Window.first_lt : s.first < numRxDesc := by
  rw [window.first]
  exact Nat.mod_lt _ (by decide)

theorem Window.head_eq : s.rdh = (s.first + waiting) % numRxDesc := by
  rw [window.head, window.first, Nat.mod_add_mod]

theorem Window.waiting_lt : waiting < numRxDesc := by
  have := window.room
  omega

theorem Window.waitingSlots : s.waitingSlots = slots numRxDesc s.first waiting := by
  have firstLt := window.first_lt
  have waitingLt := window.waiting_lt
  unfold State.waitingSlots
  rw [window.head_eq]
  congr 1
  unfold numRxDesc at firstLt waitingLt ⊢
  omega

theorem Window.head_not_waiting : s.rdh ∉ slots numRxDesc s.first waiting := by
  rw [window.head_eq]
  exact next_not_mem_slots window.waiting_lt

theorem Window.head_lt : s.rdh < numRxDesc := by
  rw [window.head]
  exact Nat.mod_lt _ (by decide)

theorem Window.head_not_busy : s.producer.busy ≠ some s.rdh := by
  intro isBusy
  have head := window.head
  have room := window.room
  have locals := window.locals
  generalize s.producer = phase at isBusy head room locals
  cases phase with
  | pushed scan page =>
    have same := some.inj isBusy
    have i := locals.2
    simp only [Producer.passed, numRxDesc] at head room i
    omega
  | _ => cases isBusy

theorem Window.boundPages_of_waiting (waits : i ∈ slots numRxDesc s.first waiting) :
    boundPages s.addr s.producer i = s.addr i := by
  have locals := window.locals
  have room := window.room
  cases phase : s.producer with
  | pushed scan page =>
    unfold State.first at waits
    rw [phase] at waits locals room
    refine update_of_ne ?_ _ _
    rintro rfl
    refine head_not_mem_slots ?_ ?_ waits
    · rw [locals.2]
      exact Nat.mod_lt _ (by decide)
    · unfold Producer.passed at room
      omega
  | _ => rfl

theorem Window.boundPages_head :
    boundPages s.addr s.producer s.rdh = s.addr s.rdh := by
  have notBusy := window.head_not_busy
  generalize s.producer = phase at notBusy ⊢
  cases phase with
  | pushed scan page =>
    exact update_of_ne (fun same => notBusy (congrArg some same.symm)) _ _
  | _ => rfl

end

theorem lt_of_mem_slots {head count : Nat} (isIn : i ∈ slots numRxDesc head count) :
    i < numRxDesc := by
  obtain ⟨offset, -, rfl⟩ := mem_slots.mp isIn
  exact Nat.mod_lt _ (by decide)

theorem PagesInv.nodup (inv : PagesInv hhdm s) :
    ((range numRxDesc).map (boundPages s.addr s.producer) ++ s.queuePages ++
      s.heldPages).Nodup := by
  have whole := inv.balanced.nodup
  unfold ownedPages at whole
  rw [append_assoc, append_assoc] at whole
  exact (nodup_append.mp whole).1

theorem Window.head_bound (window : Window s waiting) : s.addr s.rdh ∈
    (range numRxDesc).map (boundPages s.addr s.producer) :=
  mem_map.mpr ⟨s.rdh, mem_range.mpr window.head_lt, window.boundPages_head⟩

theorem PagesInv.head_ne_queue (inv : PagesInv hhdm s) (window : Window s waiting)
    {entry : Entry} (isIn : entry ∈ s.queue.contents) :
    entry.bufPhys ≠ s.addr s.rdh := by
  intro same
  have parts := (nodup_append.mp (nodup_append.mp inv.nodup).1).2.2
  exact parts _ window.head_bound _ (mem_map_of_mem isIn) same.symm

theorem PagesInv.head_ne_held (inv : PagesInv hhdm s) (window : Window s waiting)
    {entry : Entry × Packet} (isIn : entry ∈ s.held) :
    entry.1.bufPhys ≠ s.addr s.rdh := by
  intro same
  have parts := (nodup_append.mp inv.nodup).2.2
  exact parts _ (mem_append_left _ window.head_bound) _
    (mem_map_of_mem (f := fun entry : Entry × Packet => entry.1.bufPhys) isIn) same.symm

theorem PagesInv.head_ne_waiting (inv : PagesInv hhdm s) (window : Window s waiting)
    (waits : i ∈ slots numRxDesc s.first waiting) :
    s.addr i ≠ s.addr s.rdh := by
  intro same
  have injective := inj_on_of_nodup_map
    (nodup_append.mp (nodup_append.mp inv.nodup).1).1
  have inside := mem_range.mpr (lt_of_mem_slots waits)
  have isHead : i = s.rdh := by
    refine injective inside (mem_range.mpr window.head_lt) ?_
    rw [window.boundPages_of_waiting waits, window.boundPages_head, same]
  rw [isHead] at waits
  exact window.head_not_waiting waits

theorem packet_eq {entry : Entry} (mapped : entry.data = physToVirt hhdm entry.bufPhys) :
    s.packet hhdm entry = ((s.memory entry.bufPhys).take entry.len, entry.len) := by
  unfold State.packet
  rw [mapped, physToVirt, Nat.add_sub_cancel]

def OrderInv (hhdm : Nat) (s : State) : Prop :=
  ∃ waiting, Window s waiting ∧ Packets hhdm s waiting

variable {foreign : Page → Bool}

theorem orderInv_afterInit {pages : Nat → Page} {pool : List Page} {memory : Page → List Byte} :
    OrderInv hhdm (afterInit hhdm pages pool memory foreign) := by
  have around : 0 = (255 + 1 + 0) % numRxDesc := rfl
  refine ⟨0, ⟨?_, around, around, ?_, fun busy => absurd rfl busy, fun i _ => ?_, around⟩, rfl,
    nofun, trivial⟩
  · change 255 < 256
    decide
  · change 0 < 256
    decide
  · constructor
    · intro isDone
      cases isDone
    · rintro (waits | isBusy)
      · cases waits
      · cases isBusy

section

variable (inv : OrderInv hhdm s)

include inv

theorem OrderInv.poll (ran : step hhdm s .poll = some after) : OrderInv hhdm after := by
  obtain ⟨waiting, ⟨bound, first, head, room, dma, dd, locals⟩, order, held, device⟩ := inv
  unfold step at ran
  unfold State.first at first dd order
  generalize s.producer = phase at ran first head room dma dd locals order
  cases phase with
  | idle =>
    cases ran
    exact ⟨waiting, ⟨bound, first, head, room, dma, dd, locals, nofun⟩, order, held, device⟩
  | _ => cases ran

variable {page : Page}

theorem OrderInv.push {scan : Scan} {queue : RingQueue rxQueueSize Entry}
    (phase : s.producer = .prepared scan page)
    (pushed : s.queue.push (s.entryAt scan.index) = some queue) :
    OrderInv hhdm { s with queue := queue, producer := .pushed scan page } := by
  obtain ⟨waiting, window, order, held, device⟩ := inv
  have firstLt := window.first_lt
  obtain ⟨bound, first, head, room, dma, dd, locals⟩ := window
  have contents := RingQueue.contents_push pushed
  simp only [State.first, phase] at first firstLt head room dma dd locals order
  obtain ⟨atTail, -, positive⟩ := locals
  obtain ⟨rest, rfl⟩ : ∃ rest, waiting = rest + 1 := ⟨waiting - 1, by omega⟩
  have split : slots numRxDesc (Producer.first s.rxTail (.prepared scan page)) (rest + 1) = _ :=
    slots_cons firstLt
  simp only [Producer.first, Producer.passed, Producer.busy] at first head room dma dd split order
  refine ⟨rest, ⟨bound, ?_, ?_, ?_, ?_, ?_, atTail, first⟩, ?_, held, device⟩
  · change (scan.index + 1) % numRxDesc = (s.rdt + 1 + (scan.count + 1)) % numRxDesc
    rw [first, Nat.mod_add_mod]
    rfl
  · change s.rdh = (s.rdt + 1 + (scan.count + 1) + rest) % numRxDesc
    rw [head]
    congr 1
    omega
  · change scan.count + 1 + rest < numRxDesc
    omega
  · intro notIdle
    have := dma notIdle
    change scan.count + 1 + rest + 1 < numRxDesc
    omega
  · intro i inside
    change _ ↔ i ∈ slots numRxDesc ((scan.index + 1) % numRxDesc) rest ∨
      some scan.index = some i
    rw [dd i inside, split, mem_cons, some.injEq]
    constructor
    · rintro ((isHead | waits) | isBusy)
      · exact .inr isHead.symm
      · exact .inl waits
      · cases isBusy
    · rintro (waits | isHead)
      · exact .inl (.inr waits)
      · exact .inl (.inl isHead.symm)
  · change s.arrived = s.delivered ++ queue.contents.map (s.packet hhdm) ++
      (slots numRxDesc ((scan.index + 1) % numRxDesc) rest).map fun i =>
        s.packet hhdm (s.entryAt i)
    rw [order, split, contents]
    simp only [map_append, map_cons, map_nil, append_assoc, cons_append, nil_append]

theorem OrderInv.bind {scan : Scan} (phase : s.producer = .pushed scan page) :
    OrderInv hhdm { s.bind hhdm scan.index page with
      producer := .scanning ⟨(scan.index + 1) % numRxDesc, scan.index, scan.count + 1⟩ } := by
  obtain ⟨waiting, window, order, held, device⟩ := inv
  have notBusy := window.head_not_busy
  obtain ⟨bound, first, head, room, dma, dd, locals⟩ := window
  simp only [State.first, phase] at first head room dma dd locals order notBusy
  obtain ⟨atTail, i⟩ := locals
  have notHead : s.rdh ≠ scan.index := fun same => notBusy (congrArg some same.symm)
  have notWaiting : scan.index ∉ slots numRxDesc ((scan.index + 1) % numRxDesc) waiting := by
    refine head_not_mem_slots (by rw [i]; exact Nat.mod_lt _ (by decide)) ?_
    omega
  refine ⟨waiting, ⟨bound, first, head, room, dma, ?_, atTail, fun _ => ?_⟩, ?_, held, ?_⟩
  · intro other inside
    change (update s.ring scan.index _ other).dd = true ↔
      other ∈ slots numRxDesc ((scan.index + 1) % numRxDesc) waiting ∨ none = some other
    by_cases isIndex : other = scan.index
    · subst isIndex
      rw [update_self]
      constructor
      · intro isDone
        cases isDone
      · rintro (waits | isBusy)
        · exact absurd waits notWaiting
        · cases isBusy
    · rw [update_of_ne isIndex, dd other inside]
      refine or_congr_right ⟨fun isBusy => ?_, nofun⟩
      exact absurd (some.inj isBusy).symm isIndex
  · change scan.index = (s.rdt + (scan.count + 1)) % numRxDesc
    rw [i]
    congr 1
    omega
  · refine order.trans (congrArg
      (s.delivered ++ s.queue.contents.map (s.packet hhdm) ++ ·)
      (map_congr_left fun other waits => ?_))
    have ne : other ≠ scan.index := by
      rintro rfl
      exact notWaiting waits
    simp only [State.packet, State.entryAt, State.bind, update_of_ne ne]
  · unfold DeviceOk at device ⊢
    simp only [State.bind, State.addr, update_of_ne notHead]
    exact device

theorem OrderInv.stepProducer (ran : stepProducer hhdm s page = some after) :
    OrderInv hhdm after := by
  have whole := inv
  obtain ⟨waiting, window, order, held, device⟩ := inv
  have firstLt := window.first_lt
  obtain ⟨bound, first, head, room, dma, dd, locals⟩ := window
  unfold Receive.stepProducer at ran
  unfold State.first at first firstLt dd order
  generalize phase : s.producer = producer at ran first firstLt head room dma dd locals order
  cases producer with
  | idle => cases ran
  | scanning scan =>
    simp only at ran
    split at ran <;> cases ran
    next isDone =>
      have some : 0 < waiting := by
        rcases (dd scan.index firstLt).mp isDone with waits | isBusy
        · obtain ⟨offset, below, -⟩ := mem_slots.mp waits
          omega
        · cases isBusy
      exact ⟨waiting, ⟨bound, first, head, room, dma, dd, locals.1, locals.2, some⟩, order,
        held, device⟩
    next => exact ⟨waiting, ⟨bound, first, head, room, dma, dd, locals⟩, order, held, device⟩
  | getting scan | allocating scan | full scan new | freeing scan new =>
    simp only [State.pmmAlloc] at ran
    repeat' split at ran
    all_goals cases ran
    all_goals exact ⟨waiting, ⟨bound, first, head, room, dma, dd, locals⟩, order, held, device⟩
  | prepared scan new =>
    simp only at ran
    split at ran <;> cases ran
    next queue pushed => exact whole.push phase pushed
    next =>
      exact ⟨waiting, ⟨bound, first, head, room, dma, dd, locals.1, locals.2.1⟩, order, held,
        device⟩
  | pushed scan new =>
    cases ran
    exact whole.bind phase
  | stopped scan =>
    simp only at ran
    split at ran <;> cases ran
    next some =>
      exact ⟨waiting, ⟨bound, first, head, room, dma, dd, rfl, some, locals.2 some⟩, order,
        held, device⟩
    next none =>
      have zero : scan.count = 0 := by omega
      have sameFirst : s.rxTail = scan.index := by
        simp only [Producer.first, Producer.passed, zero] at first
        rw [first, locals.1]
      simp only [Producer.first, Producer.passed, zero, ← sameFirst]
        at first head room dma dd order
      exact ⟨waiting, ⟨bound, first, head, room, dma, dd, locals.1⟩, order, held, device⟩
  | stored scan =>
    cases ran
    obtain ⟨atTail, some, last⟩ := locals
    simp only [Producer.first, Producer.passed, ← atTail] at first head room dma dd order
    have published : (scan.last + 1) % numRxDesc = (s.rdt + 1 + scan.count) % numRxDesc := by
      rw [last, Nat.mod_add_mod]
      congr 1
      omega
    refine ⟨waiting, ⟨?_, ?_, ?_, ?_, ?_, dd, ?_⟩, order, held, device⟩
    · change scan.last < numRxDesc
      rw [last]
      exact Nat.mod_lt _ (by decide)
    · exact first.trans published.symm
    · change s.rdh = (scan.last + 1 + 0 + waiting) % numRxDesc
      rw [head, ← Nat.mod_add_mod, ← published, Nat.mod_add_mod]
    · change 0 + waiting < numRxDesc
      omega
    · intro notIdle
      change 0 + waiting + 1 < numRxDesc
      omega
    · exact first.trans published.symm

theorem OrderInv.copyData {data : List Byte} (pages : PagesInv hhdm s)
    (idle : s.device = .idle) (ran : stepDevice s data = some after) :
    OrderInv hhdm after := by
  simp only [stepDevice, idle] at ran
  obtain ⟨notFull, ⟨⟩⟩ := ite_none_left_eq_some.mp ran
  obtain ⟨waiting, window, order, held, device⟩ := inv
  have queueKept : ∀ entry ∈ s.queue.contents, entry.bufPhys ≠ s.addr s.rdh :=
    fun entry isIn => pages.head_ne_queue window isIn
  have waitingKept : ∀ i ∈ slots numRxDesc s.first waiting,
      s.addr i ≠ s.addr s.rdh :=
    fun i waits => pages.head_ne_waiting window waits
  have heldKept : ∀ entry ∈ s.held, entry.1.bufPhys ≠ s.addr s.rdh :=
    fun entry isIn => pages.head_ne_held window isIn
  have kept : ∀ entry : Entry, entry.data = physToVirt hhdm entry.bufPhys →
      entry.bufPhys ≠ s.addr s.rdh →
      State.packet hhdm { s with
        memory := update s.memory (s.ring s.rdh).bufferAddr
          (overwrite (s.memory (s.ring s.rdh).bufferAddr) data)
        device := .copied data } entry = s.packet hhdm entry := by
    intro entry mapped ne
    rw [packet_eq mapped, packet_eq mapped]
    exact congrArg (fun bytes : List Byte => (bytes.take entry.len, entry.len))
      (update_of_ne ne _ _)
  refine ⟨waiting, { window with dma := fun _ => ?_ }, ?_, fun entry isIn => ?_, ?_⟩
  · change s.producer.passed + waiting + 1 < numRxDesc
    have head := window.head
    have room := window.room
    have bound := window.bound
    simp only [numRxDesc] at head room bound ⊢
    omega
  · refine order.trans (congrArg₂ (s.delivered ++ · ++ ·) ?_ ?_)
    · exact map_congr_left fun entry isIn =>
        (kept entry (pages.queued entry isIn) (queueKept entry isIn)).symm
    · exact map_congr_left fun i waits =>
        (kept _ (pages.buffers i) (waitingKept i waits)).symm
  · exact (kept entry.1 (pages.held entry isIn) (heldKept entry isIn)).trans (held entry isIn)
  · change (update s.memory _ (overwrite _ data) (s.addr s.rdh)).take
      data.length = data
    unfold State.addr
    rw [update_self, overwrite, take_left]

end

theorem entryAt_of_update {desc : Desc} (ne : i ≠ s.rdh) :
    State.entryAt { s with ring := update s.ring s.rdh desc } i =
      s.entryAt i := by
  simp only [State.entryAt, update_of_ne ne]

section

variable (inv : OrderInv hhdm s)

include inv

variable {data bytes : List Byte}

theorem OrderInv.writeLength (copied : s.device = .copied data)
    (ran : stepDevice s bytes = some after) : OrderInv hhdm after := by
  simp only [stepDevice, copied] at ran
  cases ran
  obtain ⟨waiting, window, order, held, device⟩ := inv
  refine ⟨waiting, { window with dma := fun _ => ?_, dd := fun i inside => ?_ }, ?_, held, ?_⟩
  · exact window.dma (by rw [copied]; exact nofun)
  · have same : (update s.ring s.rdh
        { s.ring s.rdh with length := data.length } i).dd = (s.ring i).dd := by
      by_cases isHead : i = s.rdh
      · rw [isHead, update_self]
      · rw [update_of_ne isHead]
    exact (Eq.congr_left same).trans (window.dd i inside)
  · refine order.trans (congrArg
      (s.delivered ++ s.queue.contents.map (s.packet hhdm) ++ ·)
      (map_congr_left fun i waits => ?_))
    have ne : i ≠ s.rdh := by
      rintro rfl
      exact window.head_not_waiting waits
    exact congrArg (s.packet hhdm) (entryAt_of_update ne).symm
  · unfold DeviceOk at device
    rw [copied] at device
    refine ⟨?_, ?_⟩
    · change (s.memory (update s.ring s.rdh _ s.rdh).bufferAddr).take
        data.length = data
      rw [update_self]
      exact device
    · change (update s.ring s.rdh _ s.rdh).length = data.length
      rw [update_self]

theorem OrderInv.finish (pages : PagesInv hhdm s) (measured : s.device = .measured data)
    (ran : stepDevice s bytes = some after) : OrderInv hhdm after := by
  simp only [stepDevice, measured] at ran
  cases ran
  obtain ⟨waiting, window, order, held, device⟩ := inv
  have room := window.dma (by rw [measured]; exact nofun)
  unfold DeviceOk at device
  rw [measured] at device
  have grown : slots numRxDesc s.first (waiting + 1) =
      slots numRxDesc s.first waiting ++ [s.rdh] := by
    rw [slots_succ, ← window.head_eq]
  refine ⟨waiting + 1, ⟨window.bound, window.first, ?_, ?_, fun busy => absurd rfl busy,
    fun i inside => ?_, ?_⟩, ?_, held, trivial⟩
  · change (s.rdh + 1) % numRxDesc =
      (s.rdt + 1 + s.producer.passed + (waiting + 1)) % numRxDesc
    rw [window.head, Nat.mod_add_mod]
    rfl
  · change s.producer.passed + (waiting + 1) < numRxDesc
    omega
  · change (update s.ring s.rdh _ i).dd = true ↔
      i ∈ slots numRxDesc s.first (waiting + 1) ∨ s.producer.busy = some i
    rw [grown, mem_append, mem_singleton]
    by_cases isHead : i = s.rdh
    · rw [isHead, update_self]
      exact ⟨fun _ => .inl (.inr rfl), fun _ => rfl⟩
    · rw [update_of_ne isHead, window.dd i inside]
      exact or_congr_left (Iff.symm (or_iff_left isHead))
  · have locals := window.locals
    generalize s.producer = phase at locals ⊢
    cases phase with
    | getting | allocating | prepared => exact ⟨locals.1, locals.2.1, Nat.succ_pos _⟩
    | _ => exact locals
  · have last : s.packet hhdm (s.entryAt s.rdh) = (data, data.length) := by
      rw [packet_eq (pages.buffers s.rdh)]
      change ((s.memory (s.addr s.rdh)).take (s.ring s.rdh).length,
        (s.ring s.rdh).length) = _
      rw [device.2, device.1]
    have sameEntry : ∀ i, State.entryAt { s with
        ring := update s.ring s.rdh { s.ring s.rdh with dd := true } }
          i = s.entryAt i := by
      intro i
      by_cases isHead : i = s.rdh
      · subst isHead
        simp only [State.entryAt, update_self]
      · exact entryAt_of_update isHead
    change s.arrived ++ [(data, data.length)] = s.delivered ++
      s.queue.contents.map (s.packet hhdm) ++
        (slots numRxDesc s.first (waiting + 1)).map fun i =>
          s.packet hhdm (State.entryAt { s with
            ring := update s.ring s.rdh
              { s.ring s.rdh with dd := true } } i)
    simp only [sameEntry]
    rw [grown, map_append, map_singleton, last, ← append_assoc, ← order]

theorem OrderInv.stepDevice (pages : PagesInv hhdm s)
    (ran : stepDevice s data = some after) : OrderInv hhdm after := by
  cases device : s.device with
  | idle => exact inv.copyData pages device ran
  | copied written => exact inv.writeLength device ran
  | measured written => exact inv.finish pages device ran

theorem OrderInv.dequeue (ran : step hhdm s .dequeue = some after) : OrderInv hhdm after := by
  have whole := inv
  obtain ⟨waiting, window, order, held, device⟩ := inv
  unfold step at ran
  generalize s.consumer = phase at ran
  cases phase with
  | freeing page => cases ran
  | idle =>
    simp only at ran
    split at ran <;> cases ran
    next => exact whole
    next entry queue popped =>
      have contents := RingQueue.contents_pop popped
      refine ⟨waiting, { window with }, ?_, fun other isIn => ?_, device⟩
      · rw [contents] at order
        refine order.trans ?_
        simp only [append_assoc, cons_append, nil_append]
        rfl
      · rcases mem_append.mp isIn with old | new
        · exact held other old
        · cases mem_singleton.mp new
          rfl

theorem OrderInv.release {pos : Nat}
    (ran : step hhdm s (.release pos) = some after) : OrderInv hhdm after := by
  obtain ⟨waiting, window, order, held, device⟩ := inv
  have heldLeft : ∀ other ∈ s.held.eraseIdx pos, s.packet hhdm other.1 = other.2 :=
    fun other isIn => held other (mem_of_mem_eraseIdx isIn)
  unfold step at ran
  generalize s.consumer = phase at ran
  cases phase with
  | freeing page => cases ran
  | idle =>
    simp only at ran
    split at ran
    · cases ran
    split at ran <;> cases ran <;>
      exact ⟨waiting, { window with }, order, heldLeft, device⟩

theorem OrderInv.of_pages {allocated : Page → Bool} {badFree : Bool} {consumer : Consumer} :
    OrderInv hhdm { s with
      allocated := allocated, foreign := foreign, badFree := badFree, consumer := consumer } := by
  obtain ⟨waiting, window, order, held, device⟩ := inv
  exact ⟨waiting, { window with }, order, held, device⟩

theorem OrderInv.step (pages : PagesInv hhdm s) {action : Action}
    (ran : step hhdm s action = some after) : OrderInv hhdm after := by
  cases action with
  | poll => exact inv.poll ran
  | producer page => exact inv.stepProducer ran
  | device data => exact inv.stepDevice pages ran
  | dequeue => exact inv.dequeue ran
  | release pos => exact inv.release ran
  | consumer | otherAlloc page =>
    unfold Receive.step at ran
    simp only at ran
    split at ran <;> cases ran
    exact inv.of_pages
  | otherFree page =>
    obtain ⟨-, ⟨⟩⟩ := ite_none_right_eq_some.mp ran
    exact inv.of_pages

end

theorem orderInv_of_reachable (reached : (system hhdm).ReachableWhere Supplied s) :
    OrderInv hhdm s := by
  refine reached.invariant ?_ fun _ _ _ before inv _ ran =>
    inv.step (pagesInv_of_reachable before) ran
  rintro _ ⟨pages, pool, memory, foreign, -, rfl⟩
  exact orderInv_afterInit

end Steps

/-- Every packet is delivered once and in order, keeps its bytes until its release, and the
device gets back the emptied descriptors. -/
structure InOrder (hhdm : Nat) (s : State) : Prop where
  ordered : s.delivered <+: s.arrived
  complete : s.arrived =
    s.delivered ++ s.queue.contents.map (s.packet hhdm) ++
      s.waitingSlots.map fun i => s.packet hhdm (s.entryAt i)
  waiting : s.producer = .idle → ∀ i < numRxDesc,
    ((s.ring i).dd = true ↔ i ∈ s.waitingSlots)
  stable : ∀ entry ∈ s.held, s.packet hhdm entry.1 = entry.2
  rdt : s.producer = .idle → s.rdt = (s.rxTail + numRxDesc - 1) % numRxDesc

/-- Packets are received in order, exactly once, in every interleaving, as long as page
allocation succeeds. -/
theorem receive_inOrder {hhdm : Nat} {s : State}
    (reached : (system hhdm).ReachableWhere Supplied s) : InOrder hhdm s := by
  obtain ⟨waiting, window, order, held, -⟩ := orderInv_of_reachable reached
  have complete := order
  rw [← window.waitingSlots] at complete
  refine ⟨?_, complete, fun idle i inside => ?_, held, fun idle => ?_⟩
  · rw [order, append_assoc]
    exact prefix_append ..
  · rw [window.dd i inside, window.waitingSlots, idle]
    exact or_iff_left nofun
  · have locals := window.locals
    have bound := window.bound
    rw [idle] at locals
    have tail : s.rxTail = (s.rdt + 1) % numRxDesc := locals
    simp only [numRxDesc] at tail bound ⊢
    omega

theorem receive_inOrder_onePacket : ∃ s, (system 0x1000000).ReachableWhere Supplied s ∧
      s.delivered = [([1, 2], 2)] ∧ InOrder 0x1000000 s := by
  have started : (system 0x1000000).ReachableWhere Supplied (firstPages [0x200000]) :=
    .start (initial_firstPages (by decide) (by decide))
  have finished := started.getD_run supplied_onePacket
  exact ⟨_, finished, rfl, receive_inOrder finished⟩

end LaOS.Receive
