import LaOS.ReceiveRing

/-!
# Ownership of receive pages

Every page of the driver is in exactly one place: bound to a descriptor, in the software
queue, with the consumer, in the pool, or in the hands of a call.
-/

namespace LaOS.Receive

open List Function

/-- The pages a call of the producer has in its hands. -/
def Producer.inHand : Producer → List Page
  | .prepared _ page | .full _ page | .freeing _ page => [page]
  | _ => []

def Consumer.inHand : Consumer → List Page
  | .idle => []
  | .freeing page => [page]

/-- The pages of the descriptors; a page that was pushed into the queue is already
replaced by the new one. -/
def boundPages (addr : Nat → Page) : Producer → Nat → Page
  | .pushed scan page => Function.update addr scan.index page
  | _ => addr

def ownedPages (addr : Nat → Page) (queue held pool : List Page) (producer : Producer)
    (consumer : Consumer) : List Page :=
  (List.range numRxDesc).map (boundPages addr producer) ++ queue ++ held ++ pool ++
    producer.inHand ++ consumer.inHand

namespace State

def addr (s : State) : Nat → Page := fun i => (s.ring i).bufferAddr

def queuePages (s : State) : List Page := s.queue.contents.map Entry.bufPhys

def heldPages (s : State) : List Page := s.held.map fun entry => entry.1.bufPhys

def pages (s : State) : List Page :=
  (List.range numRxDesc).map s.addr ++ s.queuePages ++ s.heldPages ++ s.pool

end State

/-- Exactly the pages of the driver are owned, each once. -/
def Balanced (owned : List Page) (allocated foreign : Page → Bool) : Prop :=
  ∀ page, owned.count page = if allocated page && !foreign page then 1 else 0

variable {i : Nat}

section Counting

variable {addr : Nat → Page} {queue held pool owned : List Page} {scan : Scan}
  {consumer : Consumer} {producer : Producer} {allocated foreign : Page → Bool} {page : Page}

theorem count_map_update (values : Nat → Page) (page value : Page) {size : Nat}
    (inside : i < size) : ((range size).map (update values i value)).count page +
        (if values i = page then 1 else 0) =
      ((range size).map values).count page + if value = page then 1 else 0 := by
  induction size with
  | zero => cases inside
  | succ size ih =>
    simp only [range_succ, map_append, map_singleton, count_append, count_singleton, beq_iff_eq]
    by_cases isLast : i = size
    · subst isLast
      have others : (range i).map (update values i value) =
          (range i).map values := by
        refine map_congr_left fun other below => update_of_ne ?_ _ _
        rw [mem_range] at below
        omega
      rw [others, update_self]
      omega
    · have earlier := ih (by omega)
      rw [update_of_ne (fun same => isLast same.symm)]
      omega

section

variable (balanced : Balanced owned allocated foreign)

include balanced

theorem Balanced.owned_of_mem (isIn : page ∈ owned) :
    allocated page = true ∧ foreign page = false := by
  have positive := count_pos_iff.mpr isIn
  rw [balanced page] at positive
  split at positive
  · next own =>
    rw [Bool.and_eq_true, Bool.not_eq_true'] at own
    exact own
  · cases positive

theorem Balanced.nodup : owned.Nodup := by
  rw [nodup_iff_count_le_one]
  intro page
  rw [balanced page]
  split <;> omega

theorem Balanced.mem_of_own (isAllocated : allocated page = true)
    (notForeign : foreign page = false) : page ∈ owned := by
  rw [← count_pos_iff, balanced page, isAllocated, notForeign]
  exact Nat.one_pos

theorem Balanced.of_count {moved : List Page}
    (same : ∀ page, moved.count page = owned.count page) : Balanced moved allocated foreign :=
  fun page => (same page).trans (balanced page)

theorem Balanced.alloc {more : List Page} (fresh : allocated page = false)
    (notForeign : foreign page = false)
    (added : ∀ other, more.count other = owned.count other + if page = other then 1 else 0) :
    Balanced more (update allocated page true) foreign := by
  intro other
  rw [added other, balanced other]
  by_cases isPage : page = other
  · subst isPage
    rw [update_self, fresh, notForeign, if_pos rfl]
    rfl
  · rw [update_of_ne (Ne.symm isPage), if_neg isPage, Nat.add_zero]

theorem Balanced.free {less : List Page} (isIn : page ∈ owned)
    (removed : ∀ other, owned.count other = less.count other + if page = other then 1 else 0) :
    Balanced less (update allocated page false) foreign := by
  intro other
  have count := balanced other
  rw [removed other] at count
  by_cases isPage : page = other
  · subst isPage
    obtain ⟨isAllocated, notForeign⟩ := balanced.owned_of_mem isIn
    rw [if_pos rfl, isAllocated, notForeign] at count
    rw [update_self]
    have := Nat.succ.inj count
    exact this
  · rw [if_neg isPage] at count
    rw [update_of_ne (Ne.symm isPage)]
    exact count

theorem Balanced.of_others {later laterForeign : Page → Bool} (same : ∀ page,
    (later page && !laterForeign page) = (allocated page && !foreign page)) :
    Balanced owned later laterForeign := by
  intro page
  rw [same page]
  exact balanced page

end

variable {rest : List Page}

theorem Balanced.get
    (balanced : Balanced (ownedPages addr queue held (page :: rest) (.getting scan) consumer)
      allocated foreign) : Balanced (ownedPages addr queue held rest (.prepared scan page) consumer)
      allocated foreign := by
  refine balanced.of_count fun other => ?_
  simp only [ownedPages, boundPages, Producer.inHand, count_append, count_cons, count_nil]
  omega

theorem Balanced.getNew
    (balanced : Balanced (ownedPages addr queue held pool (.allocating scan) consumer)
      allocated foreign) (fresh : allocated page = false) (notForeign : foreign page = false) :
    Balanced (ownedPages addr queue held pool (.prepared scan page) consumer)
      (update allocated page true) foreign := by
  refine balanced.alloc fresh notForeign fun other => ?_
  simp only [ownedPages, boundPages, Producer.inHand, count_append, count_cons,
    count_nil, beq_iff_eq]
  omega

theorem Balanced.push (inside : scan.index < numRxDesc)
    (balanced : Balanced (ownedPages addr queue held pool (.prepared scan page) consumer)
      allocated foreign) :
    Balanced (ownedPages addr (queue ++ [addr scan.index]) held pool (.pushed scan page) consumer)
      allocated foreign := by
  refine balanced.of_count fun other => ?_
  have replaced := count_map_update addr other page inside
  simp only [ownedPages, boundPages, Producer.inHand, count_append, count_cons,
    count_nil, beq_iff_eq] at replaced ⊢
  omega

theorem Balanced.putBack
    (balanced : Balanced (ownedPages addr queue held pool (.full scan page) consumer)
      allocated foreign) :
    Balanced (ownedPages addr queue held (page :: pool) (.stopped scan) consumer)
      allocated foreign := by
  refine balanced.of_count fun other => ?_
  simp only [ownedPages, boundPages, Producer.inHand, count_append, count_cons, count_nil]
  omega

theorem mem_ownedPages_freeing :
    page ∈ ownedPages addr queue held pool (.freeing scan page) consumer := by
  simp only [ownedPages, Producer.inHand, mem_append, mem_singleton, true_or, or_true]

theorem Balanced.freeBack
    (balanced : Balanced (ownedPages addr queue held pool (.freeing scan page) consumer)
      allocated foreign) : Balanced (ownedPages addr queue held pool (.stopped scan) consumer)
      (update allocated page false) foreign := by
  refine balanced.free mem_ownedPages_freeing fun other => ?_
  simp only [ownedPages, boundPages, Producer.inHand, count_append, count_cons,
    count_nil, beq_iff_eq]
  omega

theorem Balanced.dequeue
    (balanced : Balanced (ownedPages addr (page :: queue) held pool producer consumer)
      allocated foreign) : Balanced (ownedPages addr queue (held ++ [page]) pool producer consumer)
      allocated foreign := by
  refine balanced.of_count fun other => ?_
  simp only [ownedPages, count_append, count_cons, count_nil]
  omega

theorem Balanced.release (ran : (page :: rest).Perm held)
    (balanced : Balanced (ownedPages addr queue held pool producer consumer) allocated foreign) :
    Balanced (ownedPages addr queue rest (page :: pool) producer consumer) allocated foreign := by
  refine balanced.of_count fun other => ?_
  have count := ran.count_eq other
  simp only [ownedPages, count_append, count_cons] at count ⊢
  omega

theorem Balanced.releaseFull (ran : (page :: rest).Perm held)
    (balanced : Balanced (ownedPages addr queue held pool producer .idle) allocated foreign) :
    Balanced (ownedPages addr queue rest pool producer (.freeing page)) allocated foreign := by
  refine balanced.of_count fun other => ?_
  have count := ran.count_eq other
  simp only [ownedPages, Consumer.inHand, count_append, count_cons, count_nil]
    at count ⊢
  omega

theorem mem_ownedPages_consumer :
    page ∈ ownedPages addr queue held pool producer (.freeing page) := by
  simp only [ownedPages, Consumer.inHand, mem_append, mem_singleton, or_true]

theorem Balanced.freeReleased
    (balanced : Balanced (ownedPages addr queue held pool producer (.freeing page))
      allocated foreign) : Balanced (ownedPages addr queue held pool producer .idle)
      (update allocated page false) foreign := by
  refine balanced.free mem_ownedPages_consumer fun other => ?_
  simp only [ownedPages, Consumer.inHand, count_append, count_cons, count_nil, beq_iff_eq]
  omega

end Counting

def Producer.Inside : Producer → Prop
  | .idle => True
  | .scanning scan | .getting scan | .allocating scan | .prepared scan _ | .pushed scan _
  | .full scan _ | .freeing scan _ | .stopped scan | .stored scan => scan.index < numRxDesc

structure PagesInv (hhdm : Nat) (s : State) : Prop where
  balanced : Balanced
    (ownedPages s.addr s.queuePages s.heldPages s.pool s.producer
      s.consumer) s.allocated s.foreign
  null : s.allocated 0 = false
  foreign : ∀ page, s.foreign page = true → s.allocated page = true
  inside : s.producer.Inside
  tail : s.rxTail < numRxDesc
  buffers : ∀ i, s.rxBuffers i = physToVirt hhdm (s.addr i)
  queued : ∀ entry ∈ s.queue.contents, entry.data = physToVirt hhdm entry.bufPhys
  held : ∀ entry ∈ s.held, entry.1.data = physToVirt hhdm entry.1.bufPhys
  clean : s.badFree = false

section Steps

variable {hhdm : Nat} {s after : State}

theorem pagesInv_afterInit {pages : Nat → Page} {pool : List Page} {memory : Page → List Byte}
    {foreign : Page → Bool} (fresh : FreshPages pages pool foreign) :
    PagesInv hhdm (afterInit hhdm pages pool memory foreign) where
  balanced := by
    intro page
    have owned : ownedPages (afterInit hhdm pages pool memory foreign).addr [] [] pool .idle .idle =
        (range numRxDesc).map pages ++ pool := by
      simp only [ownedPages, Producer.inHand, Consumer.inHand, append_nil]
      rfl
    change (ownedPages (afterInit hhdm pages pool memory foreign).addr [] [] pool .idle .idle).count
      page = if (foreign page ||
        ((range numRxDesc).map pages ++ pool).contains page) && !foreign page then 1 else 0
    rw [owned]
    by_cases isIn : page ∈ (range numRxDesc).map pages ++ pool
    · rw [count_eq_one_of_mem fresh.nodup isIn, fresh.own page isIn, contains_iff_mem.mpr isIn]
      rfl
    rw [count_eq_zero.mpr isIn, if_neg]
    have notContained : ((range numRxDesc).map pages ++ pool).contains page = false := by
      rw [← Bool.not_eq_true, contains_iff_mem]
      exact isIn
    rw [notContained, Bool.or_false, Bool.and_not_self]
    exact Bool.false_ne_true
  null := by
    change (foreign 0 || ((range numRxDesc).map pages ++ pool).contains 0) = false
    rw [fresh.null, Bool.false_or, ← Bool.not_eq_true, contains_iff_mem]
    exact fun isIn => fresh.nonzero 0 isIn rfl
  foreign := fun page isForeign => Bool.or_eq_true_iff.mpr (.inl isForeign)
  inside := trivial
  tail := Nat.zero_lt_succ 255
  buffers := fun _ => rfl
  queued := nofun
  held := nofun
  clean := rfl

theorem PagesInv.null_not_owned (inv : PagesInv hhdm s) :
    0 ∉ ownedPages s.addr s.queuePages s.heldPages s.pool s.producer
      s.consumer := by
  intro isIn
  cases inv.null.symm.trans (inv.balanced.owned_of_mem isIn).1

theorem addr_bind {page : Page} :
    (s.bind hhdm i page).addr = update s.addr i page :=
  comp_update Desc.bufferAddr s.ring i _

theorem badFree_pmmFree {page : Page} (clean : s.badFree = false)
    (own : s.allocated page = true ∧ s.foreign page = false) :
    (s.pmmFree page).badFree = false := by
  simp only [State.pmmFree, clean, own.1, own.2]
  rfl

theorem PagesInv.after_free (inv : PagesInv hhdm s) {page : Page}
    (own : s.allocated page = true ∧ s.foreign page = false) :
    (s.pmmFree page).allocated 0 = false ∧ ∀ other, (s.pmmFree page).foreign other = true →
        (s.pmmFree page).allocated other = true := by
  have notNull : page ≠ 0 := by
    rintro rfl
    cases inv.null.symm.trans own.1
  constructor
  · exact (update_of_ne (Ne.symm notNull) _ _).trans inv.null
  intro other isForeign
  have ne : other ≠ page := by
    rintro rfl
    cases own.2.symm.trans isForeign
  exact (update_of_ne ne _ _).trans (inv.foreign other isForeign)

theorem PagesInv.stepProducer (inv : PagesInv hhdm s) {page : Page}
    (supplied : (∃ scan, s.producer = .allocating scan) → page ≠ 0)
    (ran : stepProducer hhdm s page = some after) : PagesInv hhdm after := by
  have notNull := inv.null_not_owned
  have balanced := inv.balanced
  have inside := inv.inside
  unfold Receive.stepProducer at ran
  generalize phase : s.producer = producer at ran balanced inside notNull
  cases producer with
  | idle => cases ran
  | scanning scan =>
    simp only at ran
    split at ran <;> cases ran <;> exact { inv with balanced, inside }
  | getting scan =>
    cases pool : s.pool with
    | nil =>
      rw [pool] at balanced
      simp only [pool] at ran
      cases ran
      exact { inv with balanced, inside }
    | cons top rest =>
      rw [pool] at balanced notNull
      have topNotNull : top ≠ 0 := by
        rintro rfl
        refine notNull (mem_append_left _ (mem_append_left _ ?_))
        exact mem_append_right _ mem_cons_self
      simp only [pool] at ran
      rw [if_neg topNotNull] at ran
      cases ran
      exact { inv with balanced := balanced.get, inside }
  | allocating scan =>
    have pageNotNull := supplied ⟨scan, phase⟩
    simp only [State.pmmAlloc] at ran
    rw [if_neg pageNotNull] at ran
    split at ran
    · cases ran
    next fresh =>
    rw [Bool.not_eq_true] at fresh
    cases ran
    have notForeign : s.foreign page = false := by
      rw [← Bool.not_eq_true]
      intro isForeign
      cases fresh.symm.trans (inv.foreign page isForeign)
    refine { inv with
      balanced := balanced.getNew fresh notForeign
      inside
      null := ?_
      foreign := fun other isForeign => ?_ }
    · exact (update_of_ne (Ne.symm pageNotNull) _ _).trans inv.null
    by_cases isPage : other = page
    · subst isPage
      exact update_self ..
    · exact (update_of_ne isPage _ _).trans (inv.foreign other isForeign)
  | prepared scan new =>
    simp only at ran
    split at ran <;> cases ran
    next queue pushed =>
      have contents := RingQueue.contents_push pushed
      have moved := balanced.push inside
      refine { inv with balanced := ?_, inside, queued := ?_ }
      · change Balanced (ownedPages _ (queue.contents.map Entry.bufPhys) _ _ _ _) _ _
        rw [contents, map_append]
        exact moved
      intro entry isIn
      rw [contents, mem_append, mem_singleton] at isIn
      rcases isIn with old | rfl
      · exact inv.queued entry old
      · exact inv.buffers scan.index
    next => exact { inv with balanced, inside }
  | pushed scan new =>
    cases ran
    refine { inv with balanced := ?_, inside := Nat.mod_lt _ (by decide), buffers := ?_ }
    · change Balanced (ownedPages (s.bind hhdm scan.index new).addr _ _ _ _ _) _ _
      rw [addr_bind]
      exact balanced
    intro i
    change (s.bind hhdm scan.index new).rxBuffers i =
      physToVirt hhdm ((s.bind hhdm scan.index new).addr i)
    rw [addr_bind]
    by_cases isIndex : i = scan.index
    · rw [isIndex, update_self]
      exact update_self ..
    · rw [update_of_ne isIndex]
      exact (update_of_ne isIndex _ _).trans (inv.buffers i)
  | full scan new =>
    simp only at ran
    split at ran <;> cases ran
    · exact { inv with balanced := balanced.putBack, inside }
    · exact { inv with balanced, inside }
  | freeing scan new =>
    cases ran
    have own := balanced.owned_of_mem mem_ownedPages_freeing
    obtain ⟨null, foreign⟩ := inv.after_free own
    exact { inv with
      balanced := balanced.freeBack, null, foreign, inside, clean := badFree_pmmFree inv.clean own }
  | stopped scan =>
    simp only at ran
    split at ran <;> cases ran
    · exact { inv with balanced, inside, tail := inside }
    · exact { inv with balanced, inside := trivial }
  | stored scan =>
    cases ran
    exact { inv with balanced, inside := trivial }

theorem addr_update {desc : Desc} (same : desc.bufferAddr = (s.ring i).bufferAddr) :
    (fun other => (update s.ring i desc other).bufferAddr) = s.addr := by
  refine (comp_update Desc.bufferAddr s.ring i desc).trans ?_
  rw [same]
  exact update_eq_self i s.addr

variable {data : List Byte}

theorem addr_stepDevice (ran : stepDevice s data = some after) : after = { s with
        ring := after.ring, memory := after.memory, rdh := after.rdh, arrived := after.arrived,
        device := after.device } ∧ after.addr = s.addr := by
  unfold stepDevice at ran
  generalize s.device = device at ran
  cases device with
  | idle =>
    obtain ⟨-, ⟨⟩⟩ := Option.ite_none_left_eq_some.mp ran
    exact ⟨rfl, rfl⟩
  | copied | measured =>
    cases ran
    exact ⟨rfl, addr_update rfl⟩

section

variable (inv : PagesInv hhdm s)

include inv

theorem PagesInv.stepDevice (ran : stepDevice s data = some after) : PagesInv hhdm after := by
  obtain ⟨kept, sameAddr⟩ := addr_stepDevice ran
  have balanced := inv.balanced
  have buffers := inv.buffers
  rw [← sameAddr] at balanced buffers
  rw [kept] at balanced buffers ⊢
  exact { inv with balanced, buffers }

theorem PagesInv.dequeue (ran : step hhdm s .dequeue = some after) : PagesInv hhdm after := by
  have balanced := inv.balanced
  unfold step at ran
  generalize s.consumer = phase at ran balanced
  cases phase with
  | freeing page => cases ran
  | idle =>
    simp only at ran
    split at ran <;> cases ran
    next => exact inv
    next entry queue popped =>
      have contents := RingQueue.contents_pop popped
      refine { inv with balanced := ?_, queued := ?_, held := ?_ }
      · unfold State.queuePages at balanced
        rw [contents] at balanced
        change Balanced (ownedPages _ _ (map _ (s.held ++ _)) _ _ _) _ _
        rw [map_append]
        exact balanced.dequeue
      · exact fun other isIn => inv.queued other (by rw [contents]; exact .tail _ isIn)
      · intro other isIn
        rcases mem_append.mp isIn with old | new
        · exact inv.held other old
        · cases mem_singleton.mp new
          exact inv.queued entry (by rw [contents]; exact mem_cons_self)

theorem PagesInv.release {pos : Nat}
    (ran : step hhdm s (.release pos) = some after) : PagesInv hhdm after := by
  have balanced := inv.balanced
  unfold step at ran
  generalize s.consumer = phase at ran balanced
  cases phase with
  | freeing page => cases ran
  | idle =>
    simp only at ran
    split at ran
    · cases ran
    next entry packet found =>
    obtain ⟨within, isEntry⟩ := List.getElem?_eq_some_iff.mp found
    have split : (entry.bufPhys :: (s.held.eraseIdx pos).map
        fun entry => entry.1.bufPhys).Perm s.heldPages := by
      have moved := (getElem_cons_eraseIdx_perm within).map
        fun entry : Entry × Packet => entry.1.bufPhys
      rw [isEntry] at moved
      exact moved
    have heldLeft : ∀ other ∈ s.held.eraseIdx pos,
        other.1.data = physToVirt hhdm other.1.bufPhys :=
      fun other isIn => inv.held other (mem_of_mem_eraseIdx isIn)
    split at ran <;> cases ran
    · exact { inv with balanced := balanced.release split, held := heldLeft }
    · exact { inv with balanced := balanced.releaseFull split, held := heldLeft }

theorem PagesInv.others {page : Page} {value : Bool}
    (notNull : page ≠ 0) (notOwn : (s.allocated page && !s.foreign page) = false) :
    PagesInv hhdm { s with
      allocated := update s.allocated page value
      foreign := update s.foreign page value } := by
  have same : ∀ other, (update s.allocated page value other &&
      !update s.foreign page value other) =
        (s.allocated other && !s.foreign other) := by
    intro other
    by_cases isPage : other = page
    · rw [isPage, update_self, update_self, notOwn, Bool.and_not_self]
    · rw [update_of_ne isPage, update_of_ne isPage]
  refine { inv with
    balanced := inv.balanced.of_others same, null := ?_, foreign := fun other isForeign => ?_ }
  · exact (update_of_ne (Ne.symm notNull) _ _).trans inv.null
  by_cases isPage : other = page
  · subst isPage
    simp only [update_self] at isForeign ⊢
    exact isForeign
  · simp only [update_of_ne isPage] at isForeign ⊢
    exact inv.foreign other isForeign

theorem PagesInv.step {action : Action}
    (supplied : Supplied s action) (ran : step hhdm s action = some after) :
    PagesInv hhdm after := by
  cases action with
  | poll =>
    have balanced := inv.balanced
    unfold Receive.step at ran
    generalize s.producer = phase at ran balanced
    cases phase with
    | idle =>
      cases ran
      exact { inv with balanced, inside := inv.tail }
    | _ => cases ran
  | producer page => exact inv.stepProducer supplied ran
  | device data => exact inv.stepDevice ran
  | dequeue => exact inv.dequeue ran
  | release pos => exact inv.release ran
  | consumer =>
    have balanced := inv.balanced
    unfold Receive.step at ran
    generalize s.consumer = phase at ran balanced
    cases phase with
    | idle => cases ran
    | freeing page =>
      cases ran
      have own := balanced.owned_of_mem mem_ownedPages_consumer
      obtain ⟨null, foreign⟩ := inv.after_free own
      exact { inv with
        balanced := balanced.freeReleased, null, foreign, clean := badFree_pmmFree inv.clean own }
  | otherAlloc page =>
    obtain ⟨free, ⟨⟩⟩ := Option.ite_none_left_eq_some.mp ran
    rw [not_or, Bool.not_eq_true] at free
    exact inv.others free.1 (by rw [free.2]; rfl)
  | otherFree page =>
    obtain ⟨isForeign, ⟨⟩⟩ := Option.ite_none_right_eq_some.mp ran
    refine inv.others ?_ (by rw [isForeign, Bool.not_true, Bool.and_false])
    rintro rfl
    cases inv.null.symm.trans (inv.foreign 0 isForeign)

end

theorem pagesInv_of_reachable (reached : (system hhdm).ReachableWhere Supplied s) :
    PagesInv hhdm s := by
  refine reached.invariant ?_ fun _ _ _ _ inv supplied ran => inv.step supplied ran
  rintro _ ⟨pages, pool, memory, foreign, fresh, rfl⟩
  exact pagesInv_afterInit fresh

end Steps

/-- The pages of the driver are distinct, not null and allocated; none was lost or freed twice;
driver and device agree on the buffers. -/
structure PagesSound (hhdm : Nat) (s : State) : Prop where
  nodup : s.pages.Nodup
  nonzero : ∀ page ∈ s.pages, page ≠ 0
  allocated : ∀ page ∈ s.pages, s.allocated page = true ∧ s.foreign page = false
  kept : ∀ page, s.allocated page = true → s.foreign page = false → page ∈ s.pages
  freed : s.badFree = false
  buffers : ∀ i < numRxDesc,
    s.rxBuffers i = physToVirt hhdm (s.ring i).bufferAddr

/-- While `pmm_alloc` answers the calls of the producer, every page of the driver is in one
place between calls. -/
theorem receive_pages_sound {hhdm : Nat} {s : State}
    (reached : (system hhdm).ReachableWhere Supplied s)
    (producer : s.producer = .idle) (consumer : s.consumer = .idle) :
    PagesSound hhdm s := by
  have inv := pagesInv_of_reachable reached
  have balanced := inv.balanced
  have owned : ownedPages s.addr s.queuePages s.heldPages s.pool .idle .idle =
      s.pages := by
    simp only [ownedPages, Producer.inHand, Consumer.inHand, append_nil]
    rfl
  rw [producer, consumer, owned] at balanced
  refine ⟨balanced.nodup, fun page isIn => ?_, fun page isIn => balanced.owned_of_mem isIn,
    fun page => balanced.mem_of_own, inv.clean, fun i _ => inv.buffers i⟩
  rintro rfl
  cases inv.null.symm.trans (balanced.owned_of_mem isIn).1

def firstPages (pool : List Page) : State :=
  afterInit 0x1000000 (fun i => (i + 1) * 4096) pool (fun _ => []) fun _ => false

theorem initial_firstPages {pool : List Page} (nodup : pool.Nodup)
    (high : ∀ page ∈ pool, 256 * 4096 < page) : (system 0x1000000).initial (firstPages pool) := by
  have low : ∀ page ∈ (range numRxDesc).map fun i => (i + 1) * 4096,
      0 < page ∧ page ≤ 256 * 4096 := by
    intro page isIn
    obtain ⟨i, inside, rfl⟩ := mem_map.mp isIn
    have below : i < 256 := mem_range.mp inside
    omega
  refine ⟨_, _, _, _, ⟨?_, ?_, fun _ _ => rfl, rfl⟩, rfl⟩
  · refine List.Nodup.append (nodup_range.map fun first second same => ?_) nodup ?_
    · have : (first + 1) * 4096 = (second + 1) * 4096 := same
      omega
    · intro page inRing inPool
      exact Nat.not_lt.mpr (low page inRing).2 (high page inPool)
  · intro page isIn
    rcases mem_append.mp isIn with inRing | inPool
    · exact Nat.ne_of_gt (low page inRing).1
    · exact Nat.ne_of_gt (Nat.lt_of_le_of_lt (Nat.zero_le _) (high page inPool))

/-- A packet arrives, is taken from the ring with a page of the pool, and is dequeued. -/
def onePacket : List Action :=
  [.device [1, 2], .device [], .device [], .poll] ++ List.replicate 7 (.producer 1) ++ [.dequeue]

theorem supplied_onePacket : ∀ s, ∀ action ∈ onePacket, Supplied s action := by
  intro s action isIn
  simp only [onePacket, mem_append, mem_cons, mem_replicate, not_mem_nil, or_false] at isIn
  rcases isIn with ((rfl | rfl | rfl | rfl) | ⟨-, rfl⟩) | rfl <;>
    first | trivial | exact fun _ => Nat.one_ne_zero

theorem receive_pages_sound_onePacket :
    ∃ s, (system 0x1000000).ReachableWhere Supplied s ∧ s.producer = .idle ∧
      s.consumer = .idle ∧ (s.ring 0).bufferAddr = 0x200000 ∧
      PagesSound 0x1000000 s := by
  have started : (system 0x1000000).ReachableWhere Supplied (firstPages [0x200000]) :=
    .start (initial_firstPages (by decide) (by decide))
  have finished := started.getD_run supplied_onePacket
  exact ⟨_, finished, rfl, rfl, rfl, receive_pages_sound finished rfl rfl⟩

/-- A packet arrives while the pool is empty and `pmm_alloc` fails. -/
def failedAlloc : List Action :=
  [.device [1], .device [], .device [], .poll] ++ List.replicate 8 (.producer 0)

/-- The null page is bound to the descriptor and given to the device. -/
theorem failedAlloc_binds_null :
    ∃ s, (system 0x1000000).Reachable s ∧ s.producer = .idle ∧
      s.consumer = .idle ∧ (s.ring 0).bufferAddr = 0 ∧ 0 ∈ s.pages ∧ s.rdt = 0 := by
  have started : (system 0x1000000).Reachable (firstPages []) :=
    .start (initial_firstPages (by decide) (by decide))
  refine ⟨_, started.getD_run failedAlloc, rfl, rfl, rfl, ?_, rfl⟩
  refine mem_append_left _ (mem_append_left _ (mem_append_left _ ?_))
  exact mem_map.mpr ⟨0, mem_range.mpr (by decide), rfl⟩

end LaOS.Receive
