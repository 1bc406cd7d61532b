import LaOS.RingSlots
import LaOS.TransitionSystem

/-!
# The receive pipeline

The network card, the producer `e1000_poll_and_enqueue` and the consumer over the
descriptor ring, the software queue and the pool of free pages.  Sections under
`pool->lock` or `q->lock` are single steps.
-/

namespace LaOS.Receive

open RingSlots Function

abbrev Byte : Type := BitVec 8

/-- The physical address of a page; 0 is the null pointer. -/
abbrev Page : Type := Nat

def numRxDesc : Nat := 256

def rxQueueSize : Nat := 256

def rxFreePoolSize : Nat := 256

/-- A receive descriptor; `dd` is the lowest bit of `status`. -/
structure Desc where
  bufferAddr : Page
  length : Nat
  dd : Bool

/-- `e1000_rx_entry_t`. -/
structure Entry where
  data : Nat
  len : Nat
  bufPhys : Page

abbrev Packet : Type := List Byte × Nat

/-- `i`, `last_filled` and `n` of the scan. -/
structure Scan where
  index : Nat
  last : Nat
  count : Nat

inductive Producer
  | idle
  | scanning (scan : Scan)
  | getting (scan : Scan)
  | allocating (scan : Scan)
  | prepared (scan : Scan) (page : Page)
  | pushed (scan : Scan) (page : Page)
  | full (scan : Scan) (page : Page)
  | freeing (scan : Scan) (page : Page)
  | stopped (scan : Scan)
  | stored (scan : Scan)

/-- Where the consumer is: between calls, or about to free a page that found no room in
the pool. -/
inductive Consumer
  | idle
  | freeing (page : Page)

/-- Where the device is with the descriptor at its head. -/
inductive Device
  | idle
  | copied (data : List Byte)
  | measured (data : List Byte)

structure State where
  ring : Nat → Desc
  rxBuffers : Nat → Nat
  rxTail : Nat
  /-- The registers `RDH` and `RDT`. -/
  rdh : Nat
  rdt : Nat
  memory : Page → List Byte
  pool : List Page
  queue : RingQueue rxQueueSize Entry
  producer : Producer
  consumer : Consumer
  device : Device
  /-- The entries dequeued and not released, with the packets they were. -/
  held : List (Entry × Packet)
  /-- The pages allocated in the memory manager, and those that others allocated. -/
  allocated : Page → Bool
  foreign : Page → Bool
  /-- Whether a page was freed that the driver had not allocated. -/
  badFree : Bool
  /-- The packets the device wrote, and those the consumer dequeued. -/
  arrived : List Packet
  delivered : List Packet

/-- `pmm_alloc` answers with the given page, or with 0. -/
def State.pmmAlloc (s : State) (page : Page) : Option State :=
  if page = 0 then some s
  else if s.allocated page then none
  else some { s with allocated := update s.allocated page true }

def State.pmmFree (s : State) (page : Page) : State :=
  { s with
    allocated := update s.allocated page false
    badFree := s.badFree || !s.allocated page || s.foreign page }

section Steps

variable (hhdm : Nat)

def physToVirt (page : Page) : Nat := page + hhdm

/-- The packet behind an entry, as the consumer reads it. -/
def State.packet (s : State) (entry : Entry) : Packet :=
  ((s.memory (entry.data - hhdm)).take entry.len, entry.len)

def State.entryAt (s : State) (index : Nat) : Entry where
  data := s.rxBuffers index
  len := (s.ring index).length
  bufPhys := (s.ring index).bufferAddr

/-- The new buffer is bound to the descriptor and its status is cleared. -/
def State.bind (s : State) (index : Nat) (page : Page) : State :=
  { s with
    rxBuffers := update s.rxBuffers index (physToVirt hhdm page)
    ring := update s.ring index
      { s.ring index with bufferAddr := page, dd := false } }

/-- The next step of `e1000_poll_and_enqueue`; `page` is the answer of `pmm_alloc` where it
is called. -/
def stepProducer (s : State) (page : Page) : Option State :=
  match s.producer with
  | .idle => none
  | .scanning scan =>
    if (s.ring scan.index).dd then some { s with producer := .getting scan }
    else some { s with producer := .stopped scan }
  | .getting scan =>
    match s.pool with
    | [] => some { s with producer := .allocating scan }
    | top :: rest =>
      if top = 0 then some { s with pool := rest, producer := .allocating scan }
      else some { s with pool := rest, producer := .prepared scan top }
  | .allocating scan =>
    (s.pmmAlloc page).map fun allocated =>
      { allocated with producer := .prepared scan page }
  | .prepared scan new =>
    match s.queue.push (s.entryAt scan.index) with
    | some queue => some { s with queue := queue, producer := .pushed scan new }
    | none => some { s with producer := .full scan new }
  | .pushed scan new =>
    some { s.bind hhdm scan.index new with
      producer := .scanning ⟨(scan.index + 1) % numRxDesc, scan.index, scan.count + 1⟩ }
  | .full scan new =>
    if s.pool.length < rxFreePoolSize then
      some { s with pool := new :: s.pool, producer := .stopped scan }
    else some { s with producer := .freeing scan new }
  | .freeing scan new => some { s.pmmFree new with producer := .stopped scan }
  | .stopped scan =>
    if scan.count > 0 then some { s with rxTail := scan.index, producer := .stored scan }
    else some { s with producer := .idle }
  | .stored scan => some { s with rdt := scan.last, producer := .idle }

/-- The bytes of a packet over the old contents of a buffer. -/
def overwrite (old data : List Byte) : List Byte := data ++ old.drop data.length

/-- The device fills the descriptor at its head: data, length, then `DD` and the head. -/
def stepDevice (s : State) (data : List Byte) : Option State :=
  match s.device with
  | .idle =>
    if s.rdh = s.rdt then none
    else
      some { s with
        memory := update s.memory (s.ring s.rdh).bufferAddr
          (overwrite (s.memory (s.ring s.rdh).bufferAddr) data)
        device := .copied data }
  | .copied data =>
    some { s with
      ring := update s.ring s.rdh
        { s.ring s.rdh with length := data.length }
      device := .measured data }
  | .measured data =>
    some { s with
      ring := update s.ring s.rdh { s.ring s.rdh with dd := true }
      rdh := (s.rdh + 1) % numRxDesc
      arrived := s.arrived ++ [(data, data.length)]
      device := .idle }

inductive Action
  | poll
  | producer (page : Page)
  | device (data : List Byte)
  | dequeue
  | release (pos : Nat)
  | consumer
  | otherAlloc (page : Page)
  | otherFree (page : Page)

def step (s : State) : Action → Option State
  | .poll =>
    match s.producer with
    | .idle => some { s with producer := .scanning ⟨s.rxTail, s.rxTail, 0⟩ }
    | _ => none
  | .producer page => stepProducer hhdm s page
  | .device data => stepDevice s data
  | .dequeue =>
    match s.consumer with
    | .freeing _ => none
    | .idle =>
      match s.queue.pop with
      | none => some s
      | some (entry, queue) =>
        some { s with
          queue := queue
          held := s.held ++ [(entry, s.packet hhdm entry)]
          delivered := s.delivered ++ [s.packet hhdm entry] }
  | .release pos =>
    match s.consumer with
    | .freeing _ => none
    | .idle =>
      match s.held[pos]? with
      | none => none
      | some (entry, _) =>
        if s.pool.length < rxFreePoolSize then
          some { s with
            held := s.held.eraseIdx pos
            pool := entry.bufPhys :: s.pool }
        else
          some { s with
            held := s.held.eraseIdx pos
            consumer := .freeing entry.bufPhys }
  | .consumer =>
    match s.consumer with
    | .idle => none
    | .freeing page => some { s.pmmFree page with consumer := .idle }
  | .otherAlloc page =>
    if page = 0 ∨ s.allocated page then none
    else
      some { s with
        allocated := update s.allocated page true
        foreign := update s.foreign page true }
  | .otherFree page =>
    if s.foreign page then
      some { s with
        allocated := update s.allocated page false
        foreign := update s.foreign page false }
    else none

/-- After `e1000_init_rx_ring` and `e1000_rx_pipeline_init`, with the pages they got. -/
def afterInit (pages : Nat → Page) (pool : List Page) (memory : Page → List Byte)
    (foreign : Page → Bool) : State where
  ring := fun index => ⟨pages index, 0, false⟩
  rxBuffers := fun index => physToVirt hhdm (pages index)
  rxTail := 0
  rdh := 0
  rdt := numRxDesc - 1
  memory := memory
  pool := pool
  queue := ⟨fun _ => ⟨0, 0, 0⟩, 0, 0, 0, Nat.zero_lt_succ 255, Nat.zero_le _, rfl⟩
  producer := .idle
  consumer := .idle
  device := .idle
  held := []
  allocated := fun page => foreign page || ((List.range numRxDesc).map pages ++ pool).contains page
  foreign := foreign
  badFree := false
  arrived := []
  delivered := []

/-- The pages come from `pmm_alloc`: they are not null, distinct, and not those of others. -/
structure FreshPages (pages : Nat → Page) (pool : List Page) (foreign : Page → Bool) : Prop where
  nodup : ((List.range numRxDesc).map pages ++ pool).Nodup
  nonzero : ∀ page ∈ (List.range numRxDesc).map pages ++ pool, page ≠ 0
  own : ∀ page ∈ (List.range numRxDesc).map pages ++ pool, foreign page = false
  null : foreign 0 = false

def system : TransitionSystem State Action where
  initial := fun s => ∃ pages pool memory foreign,
    FreshPages pages pool foreign ∧ s = afterInit hhdm pages pool memory foreign
  step := step hhdm

end Steps

/-- `pmm_alloc` does not fail where the producer calls it. -/
def Supplied (s : State) : Action → Prop
  | .producer page => (∃ scan, s.producer = .allocating scan) → page ≠ 0
  | _ => True

end LaOS.Receive
