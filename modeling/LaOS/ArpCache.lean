import Mathlib

/-!
# The ARP cache

`arp_cache_update` and `arp_cache_lookup` of `module/e1000.c`.  A full cache
gives up its first slot, whose entry is the oldest one only the first time.
-/

namespace LaOS.ArpCache

open List

abbrev Ip : Type := BitVec 32

abbrev Mac : Type := BitVec 48

/-- `g_arp_cache`; a slot that is not valid is `none`. -/
abbrev Cache : Type := List (Option (Ip × Mac))

def arpCacheSize : Nat := 4

/-- The loop of `arp_cache_update` over the addresses of the valid slots, with the slot found
so far. -/
def slotLoop (ip : Ip) : List (Option Ip) → Nat → Option Nat → Option Nat
  | [], _, slot => slot
  | some valid :: rest, i, slot => if valid = ip then some i else slotLoop ip rest (i + 1) slot
  | none :: rest, i, slot => slotLoop ip rest (i + 1) (if slot = none then some i else slot)

def arpCacheUpdate (cache : Cache) (ip : Ip) (mac : Mac) : Cache :=
  cache.set ((slotLoop ip (cache.map (Option.map Prod.fst)) 0 none).getD 0) (some (ip, mac))

def arpCacheLookup (cache : Cache) (ip : Ip) : Option Mac :=
  (cache.reduceOption.find? (·.1 = ip)).map Prod.snd

/-- The cache after `arp_cache_init` and a sequence of updates, the latest first. -/
def cacheAfter : List (Ip × Mac) → Cache
  | [] => replicate arpCacheSize none
  | call :: earlier => arpCacheUpdate (cacheAfter earlier) call.1 call.2

def Cached (calls : List (Ip × Mac)) (ip : Ip) : Prop :=
  (arpCacheLookup (cacheAfter calls) ip).isSome = true

instance (calls : List (Ip × Mac)) : DecidablePred (Cached calls) :=
  fun _ => inferInstanceAs (Decidable (_ = true))

/-- The cached addresses in the order in which they were inserted. -/
def inserted : List (Ip × Mac) → List Ip
  | [] => []
  | call :: earlier =>
    if Cached earlier call.1 then inserted earlier
    else (inserted earlier).filter (Cached (call :: earlier) ·) ++ [call.1]

/-- The update of an uncached address finds no free slot. -/
def Evicts (earlier : List (Ip × Mac)) (ip : Ip) : Prop :=
  ¬ Cached earlier ip ∧ none ∉ cacheAfter earlier

/-- No update of the sequence has evicted an address. -/
def Roomy : List (Ip × Mac) → Prop
  | [] => True
  | call :: earlier => ¬ Evicts earlier call.1 ∧ Roomy earlier

/-- What an update is expected to do after earlier ones. -/
structure Lawful (earlier : List (Ip × Mac)) (call : Ip × Mac) : Prop where
  unique : ((cacheAfter (call :: earlier)).reduceOption.map Prod.fst).Nodup
  latest : ∀ ip, Cached (call :: earlier) ip →
    arpCacheLookup (cacheAfter (call :: earlier)) ip =
      ((call :: earlier).find? (·.1 = ip)).map Prod.snd
  full : ∀ other, Cached earlier other → ¬ Cached (call :: earlier) other → Evicts earlier call.1
  oldest : ∀ other, Cached earlier other → ¬ Cached (call :: earlier) other →
    (inserted earlier).head? = some other

variable {calls : List (Ip × Mac)} {addresses : List Ip} {ip : Ip} {mac : Mac}

/-- The valid slots come first. -/
def slots (addresses : List Ip) : List (Option Ip) :=
  addresses.map some ++ replicate (arpCacheSize - addresses.length) none

def place (addresses : List Ip) (ip : Ip) : Nat :=
  if ip ∈ addresses then addresses.idxOf ip
  else if addresses.length < arpCacheSize then addresses.length
  else 0

def put (addresses : List Ip) (ip : Ip) : List Ip :=
  if ip ∈ addresses then addresses
  else if addresses.length < arpCacheSize then addresses ++ [ip]
  else addresses.set 0 ip

theorem slotLoop_free (free i : Nat) (slot : Option Nat) :
    slotLoop ip (replicate free none) i slot = if free = 0 then slot else slot.or (some i) := by
  induction free generalizing i slot with
  | zero => rfl
  | succ free ih => cases slot <;> simp [replicate_succ, slotLoop, ih]

theorem slotLoop_valid (rest : List (Option Ip)) (i : Nat) :
    slotLoop ip (addresses.map some ++ rest) i none =
      if ip ∈ addresses then some (i + addresses.idxOf ip)
      else slotLoop ip rest (i + addresses.length) none := by
  induction addresses generalizing i with
  | nil => rfl
  | cons valid addresses ih =>
    by_cases same : valid = ip
    · simp [slotLoop, same]
    · simp only [map_cons, cons_append, slotLoop, same, if_false, ih, mem_cons, Ne.symm same,
        false_or, idxOf_cons_ne _ same, length_cons]
      grind

theorem slotLoop_slots : (slotLoop ip (slots addresses) 0 none).getD 0 = place addresses ip := by
  rw [slots, slotLoop_valid, slotLoop_free, place]
  grind

theorem place_lt : place addresses ip < (slots addresses).length := by
  have cached : ip ∈ addresses → addresses.idxOf ip < addresses.length := idxOf_lt_length_of_mem
  simp only [slots, length_append, length_map, length_replicate, place, arpCacheSize]
  grind

theorem set_slots : (slots addresses).set (place addresses ip) (some ip) =
    slots (put addresses ip) := by
  unfold place put
  split
  case isTrue cached =>
    have inside := idxOf_lt_length_of_mem cached
    have kept := set_getElem_self inside
    rw [getElem_idxOf] at kept
    rw [slots, set_append_left _ _ (by rwa [length_map]), ← map_set, kept]
  by_cases room : addresses.length < arpCacheSize
  · obtain ⟨free, left⟩ := Nat.exists_eq_add_of_lt room
    simp [slots, left, Nat.add_assoc, set_append_right, replicate_succ, Nat.add_sub_add_left]
  · have full : arpCacheSize - addresses.length = 0 := by omega
    simp [slots, room, full, map_set]

/-- Once an address was evicted, the first slot holds the entry that was inserted last. -/
structure Inv (calls : List (Ip × Mac)) (addresses : List Ip) : Prop where
  shape : (cacheAfter calls).map (Option.map Prod.fst) = slots addresses
  unique : addresses.Nodup
  latest : ∀ entry ∈ (cacheAfter calls).reduceOption,
    calls.find? (·.1 = entry.1) = some entry
  order : Roomy calls ∧ inserted calls = addresses ∨
    ¬ Roomy calls ∧ ¬ addresses.length < arpCacheSize ∧ inserted calls = addresses.rotate 1

section

variable (shape : (cacheAfter calls).map (Option.map Prod.fst) = slots addresses)

include shape

theorem addresses_eq : (cacheAfter calls).reduceOption.map Prod.fst = addresses := by
  rw [← reduceOption_map, shape]
  simp [slots, reduceOption]

theorem cached_iff : Cached calls ip ↔ ip ∈ addresses := by
  simp [Cached, arpCacheLookup, ← addresses_eq shape]

theorem evicts_iff : Evicts calls ip ↔ ip ∉ addresses ∧ ¬ addresses.length < arpCacheSize := by
  have free : none ∈ cacheAfter calls ↔ none ∈ slots addresses := by simp [← shape]
  simp [Evicts, cached_iff shape, free, slots, Nat.sub_eq_zero_iff_le]

end

theorem nodup_put (unique : addresses.Nodup) : (put addresses ip).Nodup := by
  unfold put
  obtain _ | ⟨first, rest⟩ := addresses <;> grind

theorem Inv.update (inv : Inv calls addresses) (call : Ip × Mac) :
    Inv (call :: calls) (put addresses call.1) := by
  have updated : cacheAfter (call :: calls) =
      (cacheAfter calls).set (place addresses call.1) (some call) := by
    rw [cacheAfter, arpCacheUpdate, inv.shape, slotLoop_slots]
  have shape : (cacheAfter (call :: calls)).map (Option.map Prod.fst) =
      slots (put addresses call.1) := by
    rw [updated, map_set, inv.shape]
    exact set_slots
  have unique : (put addresses call.1).Nodup := nodup_put inv.unique
  refine ⟨shape, unique, fun entry mem => ?_, ?_⟩
  · rw [← addresses_eq shape] at unique
    by_cases same : call.1 = entry.1
    · have stored : call ∈ (cacheAfter (call :: calls)).reduceOption := by
        rw [reduceOption_mem_iff, updated]
        refine mem_set ?_ _
        rw [← length_map, inv.shape]
        exact place_lt
      simp [inj_on_of_nodup_map unique stored mem same]
    · rw [find?_cons_of_neg (by simpa)]
      rw [reduceOption_mem_iff, updated] at mem
      obtain old | new := mem_or_eq_of_mem_set mem
      · exact inv.latest entry (reduceOption_mem_iff.mpr old)
      · cases new
        cases same rfl
  · have order := inv.order
    have distinct := inv.unique
    simp only [Roomy, inserted, cached_iff inv.shape, evicts_iff inv.shape, cached_iff shape]
    by_cases cached : call.1 ∈ addresses
    · simpa [put, cached] using order
    by_cases room : addresses.length < arpCacheSize
    · obtain ⟨roomy, same⟩ : Roomy calls ∧ inserted calls = addresses := by simpa [room] using order
      have kept : addresses.filter (· ∈ addresses ++ [call.1]) = addresses :=
        filter_eq_self.mpr fun _ mem => by simp [mem]
      rw [put, if_neg cached, if_pos room, same, if_neg cached, kept]
      exact .inl ⟨⟨fun evicts => evicts.2 room, roomy⟩, rfl⟩
    -- The first address goes, wherever it is in the order of insertion.
    obtain _ | ⟨first, rest⟩ := addresses
    · cases room (by decide)
    have others : rest.filter (· ∈ call.1 :: rest) = rest :=
      filter_eq_self.mpr fun _ mem => by simp [mem]
    have gone : [first].filter (· ∈ call.1 :: rest) = [] := by grind
    have kept : (inserted calls).filter (· ∈ call.1 :: rest) = rest := by
      rcases order with ⟨-, same⟩ | ⟨-, -, same⟩
      · rw [same]
        exact (filter_append [first] rest).trans (by rw [gone, others, nil_append])
      · rw [same, rotate_cons_succ, rotate_zero, filter_append, gone, others, append_nil]
    rw [put, if_neg cached, if_neg room, set_cons_zero, if_neg cached, kept]
    exact .inr ⟨fun roomy => roomy.1 ⟨cached, room⟩, room, by rw [rotate_cons_succ, rotate_zero]⟩

theorem exists_inv (calls : List (Ip × Mac)) : ∃ addresses, Inv calls addresses := by
  induction calls with
  | nil => exact ⟨[], rfl, nodup_nil, nofun, .inl ⟨trivial, rfl⟩⟩
  | cons call calls ih =>
    obtain ⟨addresses, inv⟩ := ih
    exact ⟨_, inv.update call⟩

theorem Inv.evicted_iff (inv : Inv calls addresses) (call : Ip × Mac) (other : Ip) :
    Cached calls other ∧ ¬ Cached (call :: calls) other ↔
      Evicts calls call.1 ∧ addresses.head? = some other := by
  have unique := inv.unique
  rw [cached_iff inv.shape, cached_iff (inv.update call).shape, evicts_iff inv.shape, put]
  obtain _ | ⟨first, rest⟩ := addresses
  · simp [arpCacheSize]
  · grind

/-- An update follows the law unless it evicts an address and an earlier one did so too. -/
theorem lawful_iff (old : List (Ip × Mac)) (call : Ip × Mac) :
    Lawful old call ↔ (Evicts old call.1 → Roomy old) := by
  obtain ⟨addresses, inv⟩ := exists_inv old
  have evicted := inv.evicted_iff call
  have after := inv.update call
  constructor
  · intro lawful evicts
    rcases inv.order with ⟨roomy, -⟩ | ⟨-, full, same⟩
    · exact roomy
    have unique := inv.unique
    have oldest := fun other first =>
      and_imp.mpr (lawful.oldest other) ((evicted other).mpr ⟨evicts, first⟩)
    rw [same] at oldest
    obtain _ | ⟨first, _ | ⟨second, rest⟩⟩ := addresses
    · cases full (by decide)
    · cases full (Nat.lt_of_sub_eq_succ rfl)
    · cases oldest first rfl
      simp at unique
  · intro once
    refine ⟨?_, fun ip cached => ?_, fun other before gone => ?_, fun other before gone => ?_⟩
    · rw [addresses_eq after.shape]
      exact after.unique
    · unfold Cached arpCacheLookup at cached
      rw [Option.isSome_map] at cached
      obtain ⟨entry, found⟩ := Option.isSome_iff_exists.mp cached
      have same : entry.1 = ip := by simpa using find?_some found
      rw [arpCacheLookup, found, ← same, after.latest entry (mem_of_find?_eq_some found)]
    · exact ((evicted other).mp ⟨before, gone⟩).1
    · obtain ⟨evicts, first⟩ := (evicted other).mp ⟨before, gone⟩
      rcases inv.order with ⟨-, same⟩ | ⟨crowded, -⟩
      · rw [same, first]
      · cases crowded (once evicts)

/-- The sixth address evicts the fifth one, although the second is the oldest. -/
theorem sixthAddress_evicts_fifth : let fifth := [(5, 0), (4, 0), (3, 0), (2, 0), (1, 0)]
    inserted fifth = [2, 3, 4, 5] ∧ Cached fifth 5 ∧ ¬ Cached ((6, 0) :: fifth) 5 := by
  decide

end LaOS.ArpCache
