import LaOS.PacketReplies

/-!
# The reply to an echo request

With its checksum a header or a message adds up to 0xFFFF in ones-complement
arithmetic, in either byte order.
-/

namespace LaOS.Packet

open List

/-- The ones-complement sum of the words in network order; an odd length is padded with
zero. -/
def onesSum : List Byte → Nat
  | high :: low :: rest =>
    let sum := high.toNat * 256 + low.toNat + onesSum rest
    sum % 65536 + sum / 65536
  | [last] => last.toNat * 256
  | [] => 0

theorem onesSum_spec (data : List Byte) :
    onesSum data ≤ 65535 ∧ onesSum data % 65535 = 256 * sumWords data % 65535 ∧
      (onesSum data = 0 → sumWords data = 0) := by
  fun_induction onesSum data with
  | case1 high low rest sum ih =>
    rw [sumWords]
    omega
  | case2 last =>
    rw [sumWords]
    omega
  | case3 => decide

theorem foldCarry_spec {sum : Nat} (bounded : sum < 2 ^ 32) :
    foldCarry 3 sum ≤ 65535 ∧ foldCarry 3 sum % 65535 = sum % 65535 ∧
      (sum = 0 → foldCarry 3 sum = 0) := by
  simp only [foldCarry]
  split_ifs <;> omega

theorem sumWords_le (data : List Byte) : sumWords data ≤ 65535 * data.length := by
  fun_induction sumWords data with
  | case1 low high rest ih =>
    simp only [length_cons]
    omega
  | case2 last =>
    simp only [length_singleton]
    omega
  | case3 => rfl

theorem sumWords_append {front : List Byte} (even : front.length % 2 = 0) (rest : List Byte) :
    sumWords (front ++ rest) = sumWords front + sumWords rest := by
  fun_induction sumWords front with
  | case1 low high front ih =>
    simp only [length_cons] at even
    rw [cons_append, cons_append, sumWords]
    omega
  | case2 last => cases even
  | case3 => rw [nil_append, Nat.zero_add]

theorem onesSum_netChecksum (front back : List Byte) (even : front.length % 2 = 0)
    (short : (front ++ [0, 0] ++ back).length < 65536) :
    onesSum (front ++ netChecksum (front ++ [0, 0] ++ back) ++ back) = 65535 := by
  have small := sumWords_le (front ++ [0, 0] ++ back)
  obtain ⟨folded, same, zero⟩ := foldCarry_spec
    (show sumWords (front ++ [0, 0] ++ back) < 2 ^ 32 by omega)
  have blank : sumWords (front ++ [0, 0] ++ back) = sumWords front + sumWords back := by
    rw [append_assoc, sumWords_append even]
    simp [sumWords]
  generalize checksum : netChecksum (front ++ [0, 0] ++ back) = bytes
  have complete : sumWords (front ++ bytes ++ back) = sumWords (front ++ [0, 0] ++ back) +
      (65535 - foldCarry 3 (sumWords (front ++ [0, 0] ++ back))) := by
    rw [append_assoc, sumWords_append even, ← checksum, netChecksum]
    simp only [cons_append, nil_append, sumWords, BitVec.toNat_ofNat]
    omega
  obtain ⟨bounded, congruent, positive⟩ := onesSum_spec (front ++ bytes ++ back)
  omega

theorem drop_icmpReply {mac : List Byte} (macLength : mac.length = 6) (packet : Buffer) :
    (icmpReply mac packet).drop 14 = ipHeader packet (payloadLength packet)
          (netChecksum (ipHeader packet (payloadLength packet) [0, 0])) ++
        icmpMessage packet (payloadLength packet)
          (netChecksum (icmpMessage packet (payloadLength packet) [0, 0])) := by
  have front : (bytesAt packet 6 6 ++ mac ++ toBe16 0x0800).length = 14 := by
    simp only [length_append, length_bytesAt, macLength, toBe16, length_cons, length_nil]
  rw [icmpReply, append_assoc, ← front, drop_left]

/-- A reply exchanges the addresses, has correct checksums and length, and carries the payload
of the request up to 470 bytes. -/
theorem icmpReply_correct (mac : List Byte) (macLength : mac.length = 6) (packet : Buffer) :
    let sent := (icmpReply mac packet).drop 14
    bytesAt (sent.getD · 0) 12 4 = bytesAt packet 30 4 ∧
      bytesAt (sent.getD · 0) 16 4 = bytesAt packet 26 4 ∧
      onesSum (sent.take 20) = 0xFFFF ∧ onesSum (sent.drop 20) = 0xFFFF ∧
      be16 (sent.getD · 0) 2 = sent.length ∧
      sent.drop 28 = (bytesAt packet 42 (be16 packet 16 - 28)).take 470 := by
  have fits : payloadLength packet ≤ 470 := Nat.min_le_right ..
  have whole := drop_icmpReply macLength packet
  have payload : (bytesAt packet 42 (be16 packet 16 - 28)).take 470 =
      bytesAt packet 42 (payloadLength packet) := by
    rw [bytesAt, ← map_take, take_range, Nat.min_comm]
    rfl
  generalize payloadLength packet = length at fits whole payload
  have headerSum := onesSum_netChecksum
    ([0x45, 0] ++ toBe16 (28 + length) ++ toBe16 (be16 packet 18 + 1) ++ [0, 0, 64, 1])
    (bytesAt packet 30 4 ++ bytesAt packet 26 4) (by simp [toBe16])
    (by simp [toBe16, length_bytesAt])
  have messageSum := onesSum_netChecksum [0, 0]
    (bytesAt packet 38 2 ++ bytesAt packet 40 2 ++ bytesAt packet 42 length) rfl
    (by simp [length_bytesAt]; omega)
  intro sent
  rw [show sent = _ from whole, payload]
  refine ⟨rfl, rfl, headerSum, messageSum, ?_, rfl⟩
  change (BitVec.ofNat 8 ((28 + length) / 256)).toNat * 256 + (BitVec.ofNat 8 (28 + length)).toNat =
    (bytesAt packet 42 length).length + 28
  rw [length_bytesAt, BitVec.toNat_ofNat, BitVec.toNat_ofNat]
  omega

theorem icmpReply_correct_shortEcho : (replicate 6 (0 : Byte)).length = 6 ∧
    onesSum (((icmpReply (replicate 6 0) (shortEcho 0x5A)).drop 14).drop 20) = 0xFFFF :=
  ⟨rfl, (icmpReply_correct (replicate 6 0) rfl (shortEcho 0x5A)).2.2.2.1⟩

/-- The receive buffer of a host that gets a frame, with other bytes behind it. -/
def received (frame : List Byte) (rest : Buffer) : Buffer :=
  fun i => frame.getD i (rest i)

/-- A host with the same driver does not answer a reply again, and learns from the reply to an ARP
request the address that was asked for. -/
theorem exchange_ends (mac : List Byte) (macLength : mac.length = 6) (packet : Buffer)
    (length : Nat) {frame : List Byte} (sent : .send frame ∈ handlePacket mac packet length)
    (peer : List Byte) (rest : Buffer) :
    handlePacket peer (received frame rest) frame.length =
      if be16 packet 12 = 0x0806 then [.updateCache (bytesAt packet 38 4) mac] else [] := by
  match mac, macLength with
  | [a, b, c, d, e, f], _ =>
    have empty : ∀ (buffer : Buffer) offset, bytesAt buffer offset 0 = [] := fun _ _ => rfl
    unfold handlePacket at sent
    split_ifs at sent with short isArp request answer isIp echo
    all_goals simp only [mem_singleton, Effect.send.injEq, not_mem_nil, reduceCtorEq] at sent
    · rw [if_pos isArp, sent]
      simp [handlePacket, be16, received, arpReply, bytesAt_succ, empty, toBe16]
    · rw [if_neg isArp, sent]
      simp [handlePacket, be16, received, icmpReply, ipHeader, icmpMessage, bytesAt_succ, empty,
        toBe16, netChecksum]

theorem exchange_ends_shortEcho :
    handlePacket [] (received (icmpReply (replicate 6 0) (shortEcho 0)) fun _ => 0)
      (icmpReply (replicate 6 0) (shortEcho 0)).length = [] :=
  (exchange_ends (replicate 6 0) length_replicate (shortEcho 0) 42 (by decide +kernel) [] _).trans
    (if_neg (by decide +kernel))

end LaOS.Packet
