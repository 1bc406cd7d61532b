import Mathlib

/-!
# Replies to received frames

`e1000_handle_packet`.  The bytes of the receive buffer behind the frame are left over
from earlier frames, and short frames make the handler read them.
-/

namespace LaOS.Packet

open List Function

abbrev Byte : Type := BitVec 8

/-- The receive buffer from the first byte of the frame on. -/
abbrev Buffer : Type := Nat → Byte

/-- What a call does: a call of `arp_cache_update`, or a frame passed to `nic->tx`. -/
inductive Effect
  | updateCache (ip mac : List Byte)
  | send (frame : List Byte)
  deriving DecidableEq

section

variable (packet : Buffer)

def bytesAt (offset count : Nat) : List Byte :=
  (List.range count).map fun i => packet (offset + i)

/-- `ntoh16` of a field. -/
def be16 (offset : Nat) : Nat :=
  (packet offset).toNat * 256 + (packet (offset + 1)).toNat

/-- `hton16` of a value, as the bytes of the field. -/
def toBe16 (value : Nat) : List Byte := [BitVec.ofNat 8 (value / 256), BitVec.ofNat 8 value]

/-- The sum of the words of `net_checksum`. -/
def sumWords : List Byte → Nat
  | low :: high :: rest => low.toNat + 256 * high.toNat + sumWords rest
  | [last] => last.toNat
  | [] => 0

/-- The loop of `net_checksum` that adds the carries.  Three rounds are enough for a
sum of 32 bits. -/
def foldCarry : Nat → Nat → Nat
  | 0, sum => sum
  | rounds + 1, sum =>
    if sum < 65536 then sum else foldCarry rounds (sum % 65536 + sum / 65536)

/-- `net_checksum`, as the bytes of the field. -/
def netChecksum (data : List Byte) : List Byte :=
  let complement := 65535 - foldCarry 3 (sumWords data)
  [BitVec.ofNat 8 complement, BitVec.ofNat 8 (complement / 256)]

/-- `send_arp_reply`. -/
def arpReply (mac : List Byte) (packet : Buffer) : List Byte :=
  bytesAt packet 6 6 ++ mac ++ toBe16 0x0806 ++ toBe16 1 ++ toBe16 0x0800 ++ [6, 4] ++ toBe16 2 ++
    mac ++ bytesAt packet 38 4 ++ bytesAt packet 22 6 ++ bytesAt packet 28 4

/-- The header of a reply before and after the checksum. -/
def ipHeader (payloadLength : Nat) (checksum : List Byte) : List Byte :=
  [0x45, 0] ++ toBe16 (28 + payloadLength) ++ toBe16 (be16 packet 18 + 1) ++ [0, 0, 64, 1] ++
    checksum ++ bytesAt packet 30 4 ++ bytesAt packet 26 4

def icmpMessage (payloadLength : Nat) (checksum : List Byte) : List Byte :=
  [0, 0] ++ checksum ++ bytesAt packet 38 2 ++ bytesAt packet 40 2 ++
    bytesAt packet 42 payloadLength

/-- `payload_len` of the reply: what the IP header says, at most what `response` has
room for. -/
def payloadLength : Nat := min (be16 packet 16 - 28) 470

/-- `send_icmp_reply`. -/
def icmpReply (mac : List Byte) (packet : Buffer) : List Byte :=
  let length := payloadLength packet
  bytesAt packet 6 6 ++ mac ++ toBe16 0x0800 ++
    ipHeader packet length (netChecksum (ipHeader packet length [0, 0])) ++
    icmpMessage packet length (netChecksum (icmpMessage packet length [0, 0]))

/-- `dest_ip` is in 192.168.56.0/24. -/
def inSubnet : Bool :=
  packet 38 = 0xC0 ∧ packet 39 = 0xA8 ∧ packet 40 = 0x38

end

/-- `e1000_handle_packet`, for the given address of the interface. -/
def handlePacket (mac : List Byte) (packet : Buffer) (length : Nat) : List Effect :=
  if length < 14 then []
  else if be16 packet 12 = 0x0806 then
    if be16 packet 20 = 1 ∧ inSubnet packet then [.send (arpReply mac packet)]
    else if be16 packet 20 = 2 then [.updateCache (bytesAt packet 28 4) (bytesAt packet 22 6)]
    else []
  else if be16 packet 12 = 0x0800 then
    if packet 23 = 1 ∧ packet 34 = 8 then [.send (icmpReply mac packet)] else []
  else []

def Agree (length : Nat) (packet other : Buffer) : Prop :=
  ∀ i < length, other i = packet i

variable {mac : List Byte} {packet other : Buffer} {length off count : Nat}

theorem Agree.bytesAt (agree : Agree length packet other) (inside : off + count ≤ length) :
    bytesAt other off count = bytesAt packet off count := by
  refine map_congr_left fun i isIn => agree _ ?_
  have := mem_range.mp isIn
  omega

theorem Agree.be16 (agree : Agree length packet other) (inside : off + 2 ≤ length) :
    be16 other off = be16 packet off := by
  unfold Packet.be16
  rw [agree off (by omega), agree (off + 1) (by omega)]

/-- The part of the address that is in the frame lies outside the subnet. -/
def OffSubnet (packet : Buffer) (length : Nat) : Prop :=
  (38 < length ∧ packet 38 ≠ 0xC0) ∨ (39 < length ∧ packet 39 ≠ 0xA8) ∨
    (40 < length ∧ packet 40 ≠ 0x38)

/-- An ARP message that is long enough for its opcode. -/
def ArpComplete (packet : Buffer) (length : Nat) : Prop :=
  20 < length ∧ packet 20 ≠ 0 ∨
    21 < length ∧ (packet 21 = 1 → OffSubnet packet length ∨ 42 ≤ length) ∧
      (packet 21 = 2 → 32 ≤ length)

/-- An IP packet that is long enough for its protocol and for the length in its
header. -/
def IpComplete (packet : Buffer) (length : Nat) : Prop :=
  24 ≤ length ∧ (packet 23 = 1 → 35 ≤ length ∧ (packet 34 = 8 → 42 + payloadLength packet ≤ length))

def Complete (packet : Buffer) (length : Nat) : Prop :=
  14 ≤ length → (be16 packet 12 = 0x0806 → ArpComplete packet length) ∧
    (be16 packet 12 = 0x0800 → IpComplete packet length)

theorem be16_eq_small {value : Nat} (small : value < 256) : be16 packet off = value ↔
      packet off = 0 ∧ packet (off + 1) = BitVec.ofNat 8 value := by
  have zero : (0 : Byte).toNat = 0 := rfl
  unfold be16
  rw [BitVec.toNat_eq, BitVec.toNat_eq, BitVec.toNat_ofNat]
  omega

theorem Agree.arpReply (agree : Agree length packet other) (inside : 42 ≤ length) :
    arpReply mac other = arpReply mac packet := by
  unfold Packet.arpReply
  rw [agree.bytesAt (by omega), agree.bytesAt (by omega), agree.bytesAt (by omega),
    agree.bytesAt (by omega)]

theorem Agree.icmpReply (agree : Agree length packet other) (headers : 35 ≤ length)
    (inside : 42 + payloadLength packet ≤ length) : icmpReply mac other = icmpReply mac packet := by
  have lengthEq : payloadLength other = payloadLength packet := by
    unfold payloadLength
    rw [agree.be16 (by omega)]
  have header : ∀ checksum, ipHeader other (payloadLength packet) checksum =
      ipHeader packet (payloadLength packet) checksum := by
    intro checksum
    unfold ipHeader
    rw [agree.be16 (by omega), agree.bytesAt (by omega), agree.bytesAt (by omega)]
  have message : ∀ checksum, icmpMessage other (payloadLength packet) checksum =
      icmpMessage packet (payloadLength packet) checksum := by
    intro checksum
    unfold icmpMessage
    rw [agree.bytesAt (by omega), agree.bytesAt (by omega), agree.bytesAt (by omega)]
  simp only [Packet.icmpReply, lengthEq, header, message]
  rw [agree.bytesAt (by omega)]

def Determined (mac : List Byte) (packet : Buffer) (length : Nat) : Prop :=
  ∀ other, Agree length packet other → handlePacket mac other length = handlePacket mac packet length

theorem Agree.refl : Agree length packet packet := fun _ _ => rfl

theorem Agree.update (agree : Agree length packet other) {i : Nat} (behind : length ≤ i)
    (byte : Byte) : Agree length packet (update other i byte) := by
  intro pos inside
  rw [update_of_ne (by omega)]
  exact agree pos inside

theorem Agree.rewrite (agree : Agree length packet other) {i : Nat} {byte : Byte}
    (same : i < length → packet i = byte) :
    Agree length packet (Function.update other i byte) := by
  intro pos inside
  by_cases isIndex : pos = i
  · subst isIndex
    rw [update_self, same inside]
  · rw [update_of_ne isIndex]
    exact agree pos inside

theorem not_determined {first second : Buffer} (firstAgrees : Agree length packet first)
    (secondAgrees : Agree length packet second)
    (differ : handlePacket mac first length ≠ handlePacket mac second length) :
    ¬ Determined mac packet length := by
  intro determined
  exact differ ((determined first firstAgrees).trans (determined second secondAgrees).symm)

theorem bytesAt_add {more : Nat} : bytesAt packet off (count + more) =
    bytesAt packet off count ++ bytesAt packet (off + count) more := by
  unfold bytesAt
  rw [range_add, map_append, map_map]
  simp only [comp_def, Nat.add_assoc]

theorem bytesAt_succ : bytesAt packet off (count + 1) =
    bytesAt packet off count ++ [packet (off + count)] := by
  unfold bytesAt
  rw [range_succ, map_append]
  rfl

theorem length_bytesAt : (bytesAt packet off count).length = count := by
  unfold bytesAt
  rw [length_map, length_range]

theorem OffSubnet.inSubnet (off : OffSubnet packet length) (agree : Agree length packet other) :
    inSubnet other = false := by
  refine decide_eq_false ?_
  rintro ⟨first, second, third⟩
  rcases off with ⟨known, ne⟩ | ⟨known, ne⟩ | ⟨known, ne⟩
  · exact ne ((agree 38 known).symm.trans first)
  · exact ne ((agree 39 known).symm.trans second)
  · exact ne ((agree 40 known).symm.trans third)

section Arp

variable (long : 14 ≤ length)

include long

theorem handlePacket_request (isArp : be16 packet 12 = 0x0806) (opcode : be16 packet 20 = 1)
    (asked : inSubnet packet = true) :
    handlePacket mac packet length = [.send (arpReply mac packet)] := by
  unfold handlePacket
  rw [if_neg (by omega), if_pos isArp, if_pos ⟨opcode, asked⟩]

theorem handlePacket_reply (isArp : be16 packet 12 = 0x0806) (opcode : be16 packet 20 = 2) :
    handlePacket mac packet length =
      [.updateCache (bytesAt packet 28 4) (bytesAt packet 22 6)] := by
  unfold handlePacket
  rw [if_neg (by omega), if_pos isArp, if_neg (by omega), if_pos opcode]

theorem handlePacket_ignored (isArp : be16 packet 12 = 0x0806)
    (notAsked : be16 packet 20 = 1 → inSubnet packet = false) (notReply : be16 packet 20 ≠ 2) :
    handlePacket mac packet length = [] := by
  unfold handlePacket
  rw [if_neg (by omega), if_pos isArp, if_neg, if_neg notReply]
  rintro ⟨opcode, asked⟩
  exact Bool.noConfusion (asked.symm.trans (notAsked opcode))

theorem Agree.be16_type (agree : Agree length packet other) : Packet.be16 other 12 =
    Packet.be16 packet 12 :=
  agree.be16 (by omega)

section

variable (isArp : be16 packet 12 = 0x0806)

include isArp

theorem arp_determined (complete : ArpComplete packet length) : Determined mac packet length := by
  intro other agree
  have otherArp := (agree.be16_type long).trans isArp
  rcases complete with ⟨inside, notZero⟩ | ⟨inside, request, reply⟩
  · have neither : ∀ buffer : Buffer, buffer 20 = packet 20 → ∀ value < 256,
        be16 buffer 20 ≠ value := by
      intro buffer same value small isValue
      exact notZero (same.symm.trans ((be16_eq_small small).mp isValue).1)
    rw [handlePacket_ignored long isArp (fun one => absurd one (neither packet rfl 1 (by decide)))
        (neither packet rfl 2 (by decide)),
      handlePacket_ignored long otherArp
        (fun one => absurd one (neither other (agree 20 inside) 1 (by decide)))
        (neither other (agree 20 inside) 2 (by decide))]
  have opcode : be16 other 20 = be16 packet 20 := agree.be16 (by omega)
  by_cases isReply : be16 packet 20 = 2
  · have enough := reply ((be16_eq_small (by decide)).mp isReply).2
    rw [handlePacket_reply long isArp isReply,
      handlePacket_reply long otherArp (opcode.trans isReply), agree.bytesAt (by omega),
      agree.bytesAt (by omega)]
  by_cases asked : be16 packet 20 = 1 ∧ inSubnet packet = true
  · rcases request ((be16_eq_small (by decide)).mp asked.1).2 with off | whole
    · exact Bool.noConfusion (asked.2.symm.trans (off.inSubnet .refl))
    have sameSubnet : inSubnet other = inSubnet packet := by
      unfold inSubnet
      rw [agree 38 (by omega), agree 39 (by omega), agree 40 (by omega)]
    rw [handlePacket_request long isArp asked.1 asked.2,
      handlePacket_request long otherArp (opcode.trans asked.1) (sameSubnet.trans asked.2),
      agree.arpReply whole]
  have outside : ∀ buffer : Buffer, Agree length packet buffer →
      be16 buffer 20 = 1 → inSubnet buffer = false := by
    intro buffer agrees isRequest
    have isOne := (agrees.be16 (by omega)).symm.trans isRequest
    rcases request ((be16_eq_small (by decide)).mp isOne).2 with off | whole
    · exact off.inSubnet agrees
    · unfold inSubnet
      rw [agrees 38 (by omega), agrees 39 (by omega), agrees 40 (by omega)]
      exact Bool.eq_false_of_not_eq_true fun isIn => asked ⟨isOne, isIn⟩
  rw [handlePacket_ignored long isArp (outside packet .refl) isReply,
    handlePacket_ignored long otherArp (outside other agree) (by omega)]

theorem arp_opcode_unknown
    (unknown : length ≤ 20 ∨ length = 21 ∧ packet 20 = 0) : ¬ Determined mac packet length := by
  have zero : 20 < length → packet 20 = 0 := by
    intro inside
    rcases unknown with short | ⟨-, isZero⟩
    · omega
    · exact isZero
  have behind : length ≤ 21 := by omega
  have base := Agree.refl.rewrite zero
  let request : Buffer := update (update (update (update
    (update packet 20 0) 21 1) 38 0xC0) 39 0xA8) 40 0x38
  let silent : Buffer := update (update packet 20 0) 21 0
  have requestAgrees : Agree length packet request :=
    (((base.update behind 1).update (by omega) 0xC0).update (by omega) 0xA8).update (by omega) 0x38
  have silentAgrees : Agree length packet silent := base.update behind 0
  refine not_determined requestAgrees silentAgrees ?_
  have requestOpcode := (be16_eq_small (by decide)).mpr ⟨rfl, rfl⟩
  have silentOpcode : be16 silent 20 = 0 := (be16_eq_small (by decide)).mpr ⟨rfl, rfl⟩
  rw [handlePacket_request long ((requestAgrees.be16_type long).trans isArp) requestOpcode
      (decide_eq_true ⟨rfl, rfl, rfl⟩),
    handlePacket_ignored long ((silentAgrees.be16_type long).trans isArp) (by omega) (by omega)]
  exact cons_ne_nil _ _

theorem arp_request_short (isRequest : be16 packet 20 = 1)
    (inside : 21 < length) (short : length < 42) (notOff : ¬ OffSubnet packet length) :
    ¬ Determined mac packet length := by
  let asked (last : Byte) : Buffer := update (update (update
    (update packet 38 0xC0) 39 0xA8) 40 0x38) 41 last
  have agrees : ∀ last, Agree length packet (asked last) := by
    intro last
    refine Agree.update (.rewrite (.rewrite (.rewrite .refl ?_) ?_) ?_) (by omega) last
    · exact fun known => not_not.mp fun ne => notOff (.inl ⟨known, ne⟩)
    · exact fun known => not_not.mp fun ne => notOff (.inr (.inl ⟨known, ne⟩))
    · exact fun known => not_not.mp fun ne => notOff (.inr (.inr ⟨known, ne⟩))
  have sends : ∀ last, handlePacket mac (asked last) length =
      [.send (arpReply mac (asked last))] := by
    intro last
    exact handlePacket_request long (((agrees last).be16_type long).trans isArp)
      (((agrees last).be16 (by omega)).trans isRequest) (decide_eq_true ⟨rfl, rfl, rfl⟩)
  refine not_determined (agrees 0) (agrees 1) ?_
  rw [sends, sends]
  intro same
  have bytes : bytesAt (asked 0) 38 4 = bytesAt (asked 1) 38 4 := by
    have frames := Effect.send.inj (cons.inj same).1
    have parts := append_inj frames (by simp only [length_append, length_bytesAt])
    have earlier := append_inj parts.1 (by simp only [length_append, length_bytesAt])
    exact (append_inj earlier.1 (by simp only [length_append, length_bytesAt])).2
  cases bytes

theorem arp_reply_short (isReply : be16 packet 20 = 2)
    (inside : 21 < length) (short : length < 32) : ¬ Determined mac packet length := by
  let sender (last : Byte) : Buffer := update packet 31 last
  have agrees : ∀ last, Agree length packet (sender last) :=
    fun last => Agree.refl.update (by omega) last
  have updates : ∀ last, handlePacket mac (sender last) length =
      [.updateCache (bytesAt (sender last) 28 4) (bytesAt (sender last) 22 6)] := by
    intro last
    exact handlePacket_reply long (((agrees last).be16_type long).trans isArp)
      (((agrees last).be16 (by omega)).trans isReply)
  refine not_determined (agrees 0) (agrees 1) ?_
  rw [updates, updates]
  intro same
  have bytes := (Effect.updateCache.inj (cons.inj same).1).1
  cases bytes

theorem arp_complete (determined : Determined mac packet length) : ArpComplete packet length := by
  by_cases known : 20 < length ∧ packet 20 ≠ 0
  · exact .inl known
  have inside : 21 < length := by
    by_contra short
    refine arp_opcode_unknown long isArp ?_ determined
    by_cases atTwenty : 20 < length
    · exact .inr ⟨by omega, not_not.mp fun notZero => known ⟨atTwenty, notZero⟩⟩
    · exact .inl (by omega)
  have zero := not_not.mp fun notZero => known ⟨by omega, notZero⟩
  refine .inr ⟨inside, fun isOne => ?_, fun isTwo => ?_⟩
  · by_contra incomplete
    rw [not_or] at incomplete
    exact arp_request_short long isArp ((be16_eq_small (by decide)).mpr ⟨zero, isOne⟩) inside
      (by omega) incomplete.1 determined
  · by_contra short
    exact arp_reply_short long isArp ((be16_eq_small (by decide)).mpr ⟨zero, isTwo⟩) inside
      (by omega) determined

end

end Arp

section Ip

variable (long : 14 ≤ length)

include long

section

variable (isIp : be16 packet 12 = 0x0800)

include isIp

theorem handlePacket_echo (proto : packet 23 = 1) (type : packet 34 = 8) :
    handlePacket mac packet length = [.send (icmpReply mac packet)] := by
  unfold handlePacket
  rw [if_neg (by omega), if_neg (by omega), if_pos isIp, if_pos ⟨proto, type⟩]

theorem handlePacket_quiet
    (noEcho : packet 23 = 1 → packet 34 ≠ 8) : handlePacket mac packet length = [] := by
  unfold handlePacket
  rw [if_neg (by omega), if_neg (by omega), if_pos isIp, if_neg]
  rintro ⟨proto, type⟩
  exact noEcho proto type

theorem ip_determined (complete : IpComplete packet length) : Determined mac packet length := by
  intro other agree
  have otherIp := (agree.be16_type long).trans isIp
  obtain ⟨header, icmp⟩ := complete
  have sameProto := agree 23 (by omega)
  by_cases proto : packet 23 = 1
  · obtain ⟨typeInside, echo⟩ := icmp proto
    have sameType := agree 34 (by omega)
    by_cases type : packet 34 = 8
    · rw [handlePacket_echo long isIp proto type,
        handlePacket_echo long otherIp (sameProto.trans proto) (sameType.trans type),
        agree.icmpReply typeInside (echo type)]
    · rw [handlePacket_quiet long isIp fun _ => type,
        handlePacket_quiet long otherIp fun _ isEcho => type (sameType.symm.trans isEcho)]
  · rw [handlePacket_quiet long isIp fun isIcmp => absurd isIcmp proto,
      handlePacket_quiet long otherIp fun isIcmp => absurd (sameProto.symm.trans isIcmp) proto]

theorem ip_proto_unknown (short : length < 24) : ¬ Determined mac packet length := by
  let echo : Buffer := update (update packet 23 1) 34 8
  let silent : Buffer := update packet 23 0
  have echoAgrees : Agree length packet echo := (Agree.refl.update (by omega) 1).update (by omega) 8
  have silentAgrees : Agree length packet silent := Agree.refl.update (by omega) 0
  refine not_determined echoAgrees silentAgrees ?_
  rw [handlePacket_echo long ((echoAgrees.be16_type long).trans isIp) rfl rfl,
    handlePacket_quiet long ((silentAgrees.be16_type long).trans isIp)
      fun isIcmp => by cases isIcmp]
  exact cons_ne_nil _ _

theorem icmp_type_unknown (proto : packet 23 = 1)
    (inside : 24 ≤ length) (short : length < 35) : ¬ Determined mac packet length := by
  let typed (type : Byte) : Buffer := update packet 34 type
  have agrees : ∀ type, Agree length packet (typed type) :=
    fun type => Agree.refl.update (by omega) type
  have sameProto : ∀ type, typed type 23 = 1 := fun type => (agrees type 23 (by omega)).trans proto
  refine not_determined (agrees 8) (agrees 0) ?_
  rw [handlePacket_echo long (((agrees 8).be16_type long).trans isIp) (sameProto 8) rfl,
    handlePacket_quiet long (((agrees 0).be16_type long).trans isIp)
      fun _ isEcho => by cases isEcho]
  exact cons_ne_nil _ _

end

omit long in
theorem getLast?_icmpReply :
    (icmpReply mac packet).getLast? = some (packet (41 + payloadLength packet)) := by
  have tail : bytesAt packet 40 2 ++ bytesAt packet 42 (payloadLength packet) =
      bytesAt packet 40 (1 + payloadLength packet) ++ [packet (41 + payloadLength packet)] := by
    rw [← bytesAt_add, show 2 + payloadLength packet = 1 + payloadLength packet + 1 by omega,
      bytesAt_succ, show 40 + (1 + payloadLength packet) = 41 + payloadLength packet by omega]
  simp only [icmpReply, icmpMessage, append_assoc]
  rw [tail]
  simp only [← append_assoc]
  exact getLast?_concat

theorem icmp_payload_short (isIp : be16 packet 12 = 0x0800) (proto : packet 23 = 1)
    (type : packet 34 = 8) (inside : 35 ≤ length) (short : length < 42 + payloadLength packet) :
    ¬ Determined mac packet length := by
  let filled (last : Byte) : Buffer := update packet (41 + payloadLength packet) last
  have agrees : ∀ last, Agree length packet (filled last) :=
    fun last => Agree.refl.update (by omega) last
  have sends : ∀ last, handlePacket mac (filled last) length =
      [.send (icmpReply mac (filled last))] := fun last =>
    handlePacket_echo long (((agrees last).be16_type long).trans isIp)
      ((agrees last 23 (by omega)).trans proto) ((agrees last 34 (by omega)).trans type)
  have lastByte : ∀ last, (icmpReply mac (filled last)).getLast? = some last := by
    intro last
    have sameLength : payloadLength (filled last) = payloadLength packet := by
      unfold payloadLength
      rw [(agrees last).be16 (by omega)]
    rw [getLast?_icmpReply, sameLength]
    exact congrArg some (update_self ..)
  refine not_determined (agrees 0) (agrees 1) ?_
  rw [sends, sends]
  intro same
  have bytes := congrArg getLast? (Effect.send.inj (cons.inj same).1)
  rw [lastByte, lastByte] at bytes
  cases bytes

theorem ip_complete (isIp : be16 packet 12 = 0x0800) (determined : Determined mac packet length) :
    IpComplete packet length := by
  have header : 24 ≤ length := by
    by_contra short
    exact ip_proto_unknown long isIp (by omega) determined
  refine ⟨header, fun proto => ?_⟩
  have typeInside : 35 ≤ length := by
    by_contra short
    exact icmp_type_unknown long isIp proto header (by omega) determined
  refine ⟨typeInside, fun type => ?_⟩
  by_contra short
  exact icmp_payload_short long isIp proto type typeInside (by omega) determined

end Ip

/-- Cache updates and replies depend on the received frame alone exactly when the frame is as
long as its headers say. -/
theorem replies_determined_iff_complete (mac : List Byte) (packet : Buffer) (length : Nat) :
    (∀ other, Agree length packet other →
      handlePacket mac other length = handlePacket mac packet length) ↔ Complete packet length := by
  constructor
  · intro determined long
    exact ⟨fun isArp => arp_complete long isArp determined,
      fun isIp => ip_complete long isIp determined⟩
  intro complete
  by_cases long : 14 ≤ length
  · obtain ⟨arp, ip⟩ := complete long
    by_cases isArp : be16 packet 12 = 0x0806
    · exact arp_determined long isArp (arp isArp)
    by_cases isIp : be16 packet 12 = 0x0800
    · exact ip_determined long isIp (ip isIp)
    · intro other agree
      unfold handlePacket
      rw [agree.be16_type long, if_neg isArp, if_neg isIp, if_neg isArp, if_neg isIp]
  · intro other _
    unfold handlePacket
    rw [if_pos (by omega), if_pos (by omega)]

/-- An echo request of 42 bytes whose header claims one byte of payload, in a buffer with
the given byte behind it. -/
def shortEcho (stale : Byte) : Buffer := fun i =>
  match i with
  | 12 => 0x08
  | 17 => 29
  | 23 => 1
  | 34 => 8
  | 42 => stale
  | _ => 0

/-- The stale byte is sent back. -/
theorem shortEcho_echoes_stale : Agree 42 (shortEcho 0) (shortEcho 0x5A) ∧
      (∀ stale, handlePacket (List.replicate 6 0) (shortEcho stale) 42 =
        [.send (icmpReply (List.replicate 6 0) (shortEcho stale))]) ∧
      (icmpReply (List.replicate 6 0) (shortEcho 0x5A)).getLast? = some 0x5A ∧
      (icmpReply (List.replicate 6 0) (shortEcho 0)).getLast? = some 0 := by
  have isIp : ∀ stale, be16 (shortEcho stale) 12 = 0x0800 := by
    intro stale
    change (0x08 : Byte).toNat * 256 + (0 : Byte).toNat = 0x0800
    decide
  refine ⟨?_, fun stale => handlePacket_echo (by decide) (isIp stale) rfl rfl, by decide +kernel,
    by decide +kernel⟩
  intro i inside
  interval_cases i <;> rfl

end LaOS.Packet
