import PlasmaModel.Libwayland.Theorems.RoundTrip

-- The calls that put a message on the wire, and when the other side reads the same message.
namespace Libwayland

inductive Call
  | send
  | queue

namespace Call

-- What the buffer of the message is filled with when it is allocated.
def filling (memory : ℕ → Byte) : Call → ℕ → Byte
  | send => fun _ => 0
  | queue => memory

def transfer (socket : Socket) (e : Endpoint) (closure : Closure) (memory : ℕ → Byte) : Call → Endpoint × ℤ
  | send => e.closureSend socket closure
  | queue => e.closureQueue socket closure memory

end Call

-- The bytes that are handed to the connection.
def Closure.written (closure : Closure) (call : Call) (memory : ℕ → Byte) : Option (List Byte) :=
  match closure.serialize (call.filling memory) closure.bufferSize with
  | none => none
  | some (buffer, size) => if size < 0 then none else some (buffer.take size.toNat)

def Closure.newIds (closure : Closure) : List ObjectId :=
  closure.args.flatMap Argument.newIds

-- The size as it stands in the header.
def messageSize (bytes : List Byte) : ℕ :=
  (readWord (bytes.drop 4) >>> 16).toNat

structure RoundTrips (call : Call) (closure : Closure) (objects objects' : WlMap) (bytes : List Byte) : Prop where
  header     : messageSize bytes = bytes.length
  determined : ∀ memory, closure.written call memory = some bytes
  received   : ∀ (connection : Connection) (restBytes : List Byte) (restFds : List Fd), connection.Valid →
    connection.input.contents = bytes ++ restBytes → connection.fdsIn.contents = closure.fds ++ restFds →
    ∃ connection', connection.demarshal bytes.length objects closure.signature = (connection', objects', some closure) ∧
      connection'.input.contents = restBytes ∧ connection'.fdsIn.contents = restFds

structure Transferable (call : Call) (closure : Closure) : Prop where
  size    : closure.wireSize < 2 ^ 16
  opcode  : closure.opcode.toNat < 2 ^ 16
  objects : .object (some 0) ∉ closure.args
  padding : call = .queue → ∀ arg ∈ closure.args, ∀ data, arg.data? = some data → 4 ∣ data.length

variable {call : Call} {closure : Closure} {objects objects' : WlMap} {bytes : List Byte} {memory memory' : ℕ → Byte}
variable {dup : ℕ → Fd → Option Fd} {details : ArgumentDetails} {arg arg' : Argument} {args args' : List Argument}

theorem accepts_marshalArg {i : ℕ} (h : marshalArg dup i details arg = some arg') : details.accepts arg' = true := by
  cases arg with
  | string s | object s | newId s | array s => 
    cases s with
    | none =>
      simp only [marshalArg] at h
      first | cases h | (split at h <;> cases h; assumption)
    | some => cases h; rfl
  | fd fd =>
    obtain ⟨_, _, he⟩ := Option.map_eq_some_iff.mp h
    exact he ▸ rfl
  | int | uint | fixed => cases h; rfl

theorem accepts_marshalArgs {i : ℕ} {details : List ArgumentDetails} (h : marshalArgs dup i details args = some args') :
    ∀ entry ∈ details.zip args', entry.1.accepts entry.2 = true := by
  induction details generalizing i args args'
  case nil => exact nofun
  case cons details others ih =>
    cases args with
    | nil =>
      cases h
      exact nofun
    | cons arg args =>
      have ⟨arg', harg, h⟩ := Option.bind_eq_some_iff.mp h
      have ⟨rest, hrest, he⟩ := Option.map_eq_some_iff.mp h
      subst he
      exact List.forall_mem_cons.mpr ⟨accepts_marshalArg harg, ih hrest⟩

-- The arguments of a marshalled message are those of its signature, and accepted by it.
theorem marshal_spec {senderId : ObjectId} {opcode : UInt32} {signature : Signature} {typed : HasTypes signature args}
    (h : Closure.marshal dup senderId opcode signature args typed = some closure) :
    closure.senderId = senderId ∧ closure.opcode = opcode ∧ closure.signature = signature ∧
      argCountForSignature signature ≤ WL_CLOSURE_MAX_ARGS ∧
      marshalArgs dup 0 (argumentDetails signature) args = some closure.args := by
  rw [Closure.marshal] at h
  split at h
  case isTrue => cases h
  case isFalse hcount =>
    split at h
    case h_1 => cases h
    case h_2 marshalled hmarshal =>
      cases h
      exact ⟨rfl, rfl, rfl, not_lt.mp hcount, hmarshal⟩

theorem fds_eq_flatMap : closure.fds = closure.args.flatMap Argument.fds := by
  rw [Closure.fds]
  generalize closure.args = args
  induction args
  case nil => rfl
  case cons arg args ih => cases arg <;> simp [Argument.fds, ih]

namespace RingBuffer

variable {α : Type} [Element α]

-- Whatever has been received is in some buffer.
theorem exists_contents (xs : List α) : ∃ b : RingBuffer α, b.Valid ∧ b.contents = xs := by
  have ⟨n, hn⟩ := @Element.size_dvd α _
  have hcapacity : xs.length ≤ sizePot (WL_BUFFER_DEFAULT_SIZE_POT + xs.length) / Element.size α := by
    have hlt : xs.length < 2 ^ xs.length := Nat.lt_two_pow_self
    have hn0 : 0 < n := by
      refine Nat.pos_of_ne_zero fun hz => ?_
      rw [hz, Nat.mul_zero] at hn
      cases hn
    have hpot : sizePot (WL_BUFFER_DEFAULT_SIZE_POT + xs.length) = Element.size α * (n * 2 ^ xs.length) := by
      rw [sizePot, pow_add, ← Nat.mul_assoc, ← hn]
      rfl
    rw [hpot, Nat.mul_div_cancel_left _ Element.size_pos]
    exact hlt.le.trans (Nat.le_mul_of_pos_left _ hn0)
  refine ⟨{
    data     := xs ++ List.replicate (sizePot (WL_BUFFER_DEFAULT_SIZE_POT + xs.length) / Element.size α - xs.length)
      Element.zero
    head     := xs.length
    sizeBits := WL_BUFFER_DEFAULT_SIZE_POT + xs.length }, ?_, ?_⟩
  · constructor
    case data =>
      simp only [capacity, List.length_append, List.length_replicate]
      omega
    case ordered => exact Nat.zero_le _
    case fits => exact hcapacity
    case bits => exact Nat.le_add_right ..
    case maximum => exact .inl rfl
  · simp [contents, Ring.contents, count]

end RingBuffer

theorem exists_received (bytes : List Byte) (fds : List Fd) :
    ∃ connection : Connection, connection.Valid ∧ connection.input.contents = bytes ∧
      connection.fdsIn.contents = fds := by
  have ⟨input, hinput, hbytes⟩ := RingBuffer.exists_contents bytes
  have ⟨fdsIn, hfdsIn, hfds⟩ := RingBuffer.exists_contents fds
  have ⟨out, hout, _⟩ := RingBuffer.exists_contents ([] : List Byte)
  have ⟨fdsOut, hfdsOut, _⟩ := RingBuffer.exists_contents ([] : List Fd)
  exact ⟨{ input, out, fdsIn, fdsOut }, ⟨hinput, hout, hfdsIn, hfdsOut⟩, hbytes, hfds⟩

theorem readWord_header (h : bytes = closure.encode memory) : readWord bytes = closure.senderId ∧
    readWord (bytes.drop 4) = closure.header ∧ bytes.drop 8 = encodeArgs memory 2 closure.args := by
  rw [h, Closure.encode, List.append_assoc]
  exact ⟨readWord_word, readWord_word, rfl⟩

theorem messageSize_encode (h : bytes = closure.encode memory) (hw : closure.wireSize < 2 ^ 16) :
    messageSize bytes = bytes.length := by
  have hmod : closure.wireSize % 2 ^ 32 % 2 ^ 16 = closure.wireSize := by omega
  rw [messageSize, (readWord_header h).2.1, Closure.header, header_size, toNat_mask, UInt32.toNat_ofNat', hmod, h,
    length_encode]

theorem messageSize_lt : messageSize bytes < 2 ^ 16 := by
  have hlt := (readWord (bytes.drop 4)).toNat_lt
  rw [messageSize, UInt32.toNat_shiftRight, Nat.shiftRight_eq_div_pow]
  exact Nat.div_lt_of_lt_mul hlt

-- The words that are left are those of the padding.
theorem encodeArgs_congr {p : ℕ}
    (h : memory = memory' ∨ ∀ arg ∈ args, ∀ data, arg.data? = some data → 4 ∣ data.length) :
    encodeArgs memory p args = encodeArgs memory' p args := by
  cases h with
  | inl he => rw [he]
  | inr h =>
    induction args generalizing p
    case nil => rfl
    case cons arg args ih =>
      have ⟨harg, hargs⟩ := List.forall_mem_cons.mp h
      have hencode : arg.encode memory p = arg.encode memory' p := by
        rw [Argument.encode, Argument.encode]
        cases hd : arg.data? with
        | none => rfl
        | some data =>
          have hnone : 4 * dataWords data - data.length = 0 := by
            have := harg data hd
            rw [dataWords]
            omega
          simp only [hnone]
          rfl
      rw [encodeArgs, encodeArgs, hencode, ih hargs]

theorem dvd_of_encodeArgs {p : ℕ} (h : encodeArgs (fun _ => 0) p args = encodeArgs (fun _ => 1) p args) :
    ∀ arg ∈ args, ∀ data, arg.data? = some data → 4 ∣ data.length := by
  induction args generalizing p
  case nil => exact nofun
  case cons arg args ih =>
    have hlength : (arg.encode (fun _ => 0) p).length = (arg.encode (fun _ => 1) p).length := by
      rw [length_encodeArg, length_encodeArg]
    have ⟨hencode, hothers⟩ := List.append_inj h hlength
    refine List.forall_mem_cons.mpr ⟨fun data hdata => ?_, ih hothers⟩
    have hlefts : leftover (fun _ => 0) (4 * (p + 1) + data.length) (4 * dataWords data - data.length) =
        leftover (fun _ => 1) (4 * (p + 1) + data.length) (4 * dataWords data - data.length) := by
      simp only [Argument.encode, hdata] at hencode
      exact List.append_cancel_left hencode
    have hzero : 4 * dataWords data - data.length = 0 := by
      cases hcount : 4 * dataWords data - data.length with
      | zero => rfl
      | succ n =>
        rw [hcount] at hlefts
        have hhead := congrArg List.head? hlefts
        simp [leftover, List.range_succ_eq_map] at hhead
    have hle := length_le_dataWords data
    exact ⟨dataWords data, by omega⟩

theorem Closure.written_eq (hw : closure.wireSize < 2 ^ 16) :
    closure.written call memory = some (closure.encode (call.filling memory)) := by
  have hlt : closure.wireSize < 2 ^ 32 := hw.trans (by decide)
  have hwords : 2 + argsWords closure.args < 2 ^ 32 := by
    rw [wireSize] at hlt
    omega
  have hsize : toInt32 (closure.wireSize % 2 ^ 32) = closure.wireSize := by
    rw [Nat.mod_eq_of_lt hlt]
    exact Int.bmod_eq_of_le (by omega) (by omega)
  rw [written, serialize_eq (fits_of_wireSize hlt) hwords]
  dsimp only
  rw [hsize, if_neg (by omega), Int.toNat_natCast, ← @length_encode (call.filling memory) closure, List.take_length]

theorem encode_congr (h : Transferable call closure) :
    closure.encode (call.filling memory) = closure.encode (call.filling memory') := by
  have hsame : call.filling memory = call.filling memory' ∨
      ∀ arg ∈ closure.args, ∀ data, arg.data? = some data → 4 ∣ data.length := by
    cases call with
    | send => exact .inl rfl
    | queue => exact .inr (h.padding rfl)
  rw [Closure.encode, Closure.encode, encodeArgs_congr hsame]

theorem opcode_encode (h : bytes = closure.encode memory) (ho : closure.opcode.toNat < 2 ^ 16) :
    readWord (bytes.drop 4) &&& 0x0000ffff = closure.opcode := by
  rw [(readWord_header h).2.1, Closure.header, header_opcode]
  refine UInt32.toNat_inj.mp ?_
  rw [toNat_mask, Nat.mod_eq_of_lt ho]

theorem Transferable.received (h : Transferable call closure)
    (hc : argCountForSignature closure.signature ≤ WL_CLOSURE_MAX_ARGS)
    (ha : ∀ entry ∈ (argumentDetails closure.signature).zip closure.args, entry.1.accepts entry.2 = true)
    (hids : objects.reserveAll closure.newIds = some objects') {connection : Connection} {restBytes : List Byte}
    {restFds : List Fd} (hv : connection.Valid) (hi : connection.input.contents = closure.encode memory ++ restBytes)
    (hf : connection.fdsIn.contents = closure.fds ++ restFds) :
    ∃ connection', connection.demarshal (closure.encode memory).length objects closure.signature =
      (connection', objects', some closure) ∧
      connection'.input.contents = restBytes ∧ connection'.fdsIn.contents = restFds := by
  have hlt : closure.wireSize < 2 ^ 32 := h.size.trans (by decide)
  have hlength : (closure.encode memory).length = 4 * (2 + argsWords closure.args) := length_encode
  have hcount : (closure.encode memory).length ≤ connection.input.count := by
    rw [← hv.input.length_contents, hi, List.length_append]
    exact Nat.le_add_right ..
  have hcopy : connection.input.copy (closure.encode memory).length = closure.encode memory := by
    rw [hv.input.copy hcount, hi, List.take_left]
  have hconsume := (hv.input.consume hcount).2
  have ⟨hsender, _, hargs⟩ := readWord_header (rfl : closure.encode memory = _)
  have htake : ((closure.encode memory).take ((closure.encode memory).length / 4 * 4)).drop 8 =
      encodeArgs memory 2 closure.args := by
    rw [← hargs, List.take_of_length_le]
    omega
  let start : Reader := { rest := encodeArgs memory 2 closure.args, fdsIn := connection.fdsIn, objects }
  have hargFds : start.fdsIn.contents = closure.args.flatMap Argument.fds ++ restFds := fds_eq_flatMap ▸ hf
  have ⟨fdsIn, hread, _, hfds⟩ :=
    start.demarshalArgs_encode closure.typed ha (Closure.fits_of_wireSize hlt) h.objects rfl hv.fdsIn hargFds hids
  refine ⟨{ connection.consume (closure.encode memory).length with fdsIn }, ?_, ?_, hfds⟩
  · rw [Connection.demarshal, if_neg (by omega), dif_neg (not_lt.mpr hc)]
    dsimp only
    split
    case h_1 hnone =>
      rw [hcopy, htake, hread] at hnone
      cases hnone
    case h_2 r args hsome =>
      rw [hcopy, htake, hread] at hsome
      cases hsome
      simp only [hcopy, hsender, opcode_encode rfl h.opcode]
  · rw [Connection.consume]
    dsimp only
    rw [hconsume, hi, List.drop_left]

theorem Transferable.roundTrips (h : Transferable call closure)
    (hc : argCountForSignature closure.signature ≤ WL_CLOSURE_MAX_ARGS)
    (ha : ∀ entry ∈ (argumentDetails closure.signature).zip closure.args, entry.1.accepts entry.2 = true)
    (hids : objects.reserveAll closure.newIds = some objects') (hb : closure.written call memory = some bytes) :
    RoundTrips call closure objects objects' bytes := by
  rw [Closure.written_eq h.size] at hb
  cases hb
  exact {
    header     := messageSize_encode rfl h.size
    determined := fun memory' => by rw [Closure.written_eq h.size, encode_congr h]
    received   := fun _ _ _ hv hi hf => h.received hc ha hids hv hi hf }

-- What is read tells that the whole message fits the size in its header.
theorem demarshal_some {connection connection' : Connection} {size : ℕ} {signature : Signature}
    (hv : connection.Valid) (hs : size ≤ connection.input.count)
    (h : connection.demarshal size objects signature = (connection', objects', some closure)) :
    closure.opcode.toNat < 2 ^ 16 ∧ closure.wireSize ≤ size ∧ .object (some 0) ∉ closure.args := by
  rw [Connection.demarshal] at h
  split at h
  case isTrue => cases h
  case isFalse hsize =>
    split at h
    case isTrue => cases h
    case isFalse =>
      dsimp only at h
      split at h
      case h_1 => cases h
      case h_2 r args hread =>
        cases h
        have hlength : (connection.input.copy size).length = size := by
          rw [hv.input.copy hs, List.length_take, hv.input.length_contents, Nat.min_eq_left hs]
        have hrest : (((connection.input.copy size).take (size / 4 * 4)).drop 8).length = size / 4 * 4 - 8 := by
          rw [List.length_drop, List.length_take, hlength, Nat.min_eq_left (Nat.div_mul_le_self size 4)]
        have ⟨hwords, hzero⟩ := Reader.read_demarshalArgs (by dsimp only; omega) hread
        refine ⟨?_, ?_, hzero⟩
        · rw [toNat_mask]
          exact Nat.mod_lt _ (by decide)
        · rw [Closure.wireSize]
          dsimp only at hwords ⊢
          omega

theorem RoundTrips.transferable (h : RoundTrips call closure objects objects' bytes) : Transferable call closure := by
  have ⟨connection, hv, hi, hf⟩ := exists_received (bytes ++ []) (closure.fds ++ [])
  have ⟨connection', hread, _⟩ := h.received connection [] [] hv hi hf
  have hcount : bytes.length ≤ connection.input.count := by
    rw [← hv.input.length_contents, hi, List.append_nil]
  have ⟨hopcode, hsize, hzero⟩ := demarshal_some hv hcount hread
  have hlt : closure.wireSize < 2 ^ 16 := hsize.trans_lt (h.header ▸ messageSize_lt)
  refine ⟨hlt, hopcode, hzero, ?_⟩
  intro hqueue
  subst hqueue
  have hencode := Option.some.inj ((Closure.written_eq hlt).symm.trans
    ((h.determined fun _ => 0).trans ((h.determined fun _ => 1).symm.trans (Closure.written_eq hlt))))
  exact dvd_of_encodeArgs (List.append_cancel_left hencode)

theorem RoundTrips.iff_transferable (hc : argCountForSignature closure.signature ≤ WL_CLOSURE_MAX_ARGS)
    (ha : ∀ entry ∈ (argumentDetails closure.signature).zip closure.args, entry.1.accepts entry.2 = true)
    (hids : objects.reserveAll closure.newIds = some objects') (hb : closure.written call memory = some bytes) :
    RoundTrips call closure objects objects' bytes ↔ Transferable call closure :=
  ⟨RoundTrips.transferable, fun h => h.roundTrips hc ha hids hb⟩

-- Whatever the connection holds is what was queued before.
theorem queues_connection {connection : Connection} (errno : Errno) (hv : connection.Valid) :
    Queues [{ bytes := connection.out.contents, fds := [] }] connection.fdsOut.contents { connection, errno } := by
  constructor
  case valid => exact hv
  case bytes => simp [handedBytes, bytesOf]
  case fds => simp [handedFds, fdsOf]
  case limit => exact List.forall_mem_nil _
  case closed => rfl
  case ahead =>
    intro calls _ sent hsent
    have hle := fdsOf_length_le hsent
    simp only [fdsOf, List.flatMap_singleton, List.length_nil, Nat.le_zero] at hle
    simp only [fdsOf, hle, Nat.zero_le]

theorem Call.transfer_spec {socket : Socket} {connection : Connection} {errno : Errno} {e : Endpoint}
    (hv : connection.Valid) (ht : call.transfer socket { connection, errno } closure memory = (e, 0)) :
    ∃ bytes, closure.written call memory = some bytes ∧
      handedBytes e.calls ++ e.connection.out.contents = connection.out.contents ++ bytes ∧
      handedFds e.calls ++ e.connection.fdsOut.contents = connection.fdsOut.contents ++ closure.fds := by
  have hstart := queues_connection errno hv
  have ⟨buffer, size, hserialize, hsize, hqueued⟩ : ∃ buffer size,
      closure.serialize (call.filling memory) closure.bufferSize = some (buffer, size) ∧ 0 ≤ size ∧
      Queued [{ bytes := connection.out.contents, fds := [] }] (connection.fdsOut.contents ++ closure.fds)
        (buffer.take size.toNat) e := by
    cases call with
    | send => exact hstart.transmit Queues.write ht (Int.le_refl _)
    | queue => exact hstart.transmit Queues.queueBytes ht (Int.le_refl _)
  have hbytes := hqueued.bytes
  have hfds := hqueued.fds
  simp only [bytesOf, fdsOf, List.flatMap_singleton, List.nil_append] at hbytes hfds
  refine ⟨_, ?_, hbytes, hfds⟩
  rw [Closure.written, hserialize]
  exact if_neg (Int.not_lt.mpr hsize)

theorem Call.transfer_roundTrips_iff {socket : Socket} {connection : Connection} {errno : Errno} {e : Endpoint}
    {senderId : ObjectId} {opcode : UInt32} {signature : Signature} {typed : HasTypes signature args}
    (hm : Closure.marshal dup senderId opcode signature args typed = some closure) (hv : connection.Valid)
    (ht : call.transfer socket { connection, errno } closure memory = (e, 0))
    (hids : objects.reserveAll closure.newIds = some objects') :
    ∃ bytes, closure.written call memory = some bytes ∧
      handedBytes e.calls ++ e.connection.out.contents = connection.out.contents ++ bytes ∧
      handedFds e.calls ++ e.connection.fdsOut.contents = connection.fdsOut.contents ++ closure.fds ∧
      closure.senderId = senderId ∧ closure.opcode = opcode ∧ closure.signature = signature ∧
      (RoundTrips call closure objects objects' bytes ↔ Transferable call closure) := by
  have ⟨bytes, hwritten, hbytes, hfds⟩ := transfer_spec hv ht
  have ⟨hsender, hopcode, hsignature, hcount, hargs⟩ := marshal_spec hm
  refine ⟨bytes, hwritten, hbytes, hfds, hsender, hopcode, hsignature, ?_⟩
  subst hsignature
  exact RoundTrips.iff_transferable hcount (accepts_marshalArgs hargs) hids hwritten

-- A message with an empty string, of which only the NUL is written.
def emptyStringMessage : Closure where
  signature := ['s']
  senderId  := 1
  opcode    := 0
  args      := [.string (some { bytes := [], nonzero := List.not_mem_nil })]
  typed     := rfl
  bounded   := Nat.succ_le_succ (Nat.zero_le 19)

theorem marshal_emptyStringMessage : Closure.marshal (fun _ fd => some fd) 1 0 ['s'] emptyStringMessage.args rfl =
    some emptyStringMessage :=
  rfl

theorem Call.transfer_roundTrips_emptyString : ∃ e bytes,
    Call.send.transfer Session.waitingSocket { connection := .create 0 } emptyStringMessage (fun _ => 1) = (e, 0) ∧
      emptyStringMessage.written .send (fun _ => 1) = some bytes ∧
      RoundTrips .send emptyStringMessage { side := .server } { side := .server } bytes := by
  have hsend : (Call.send.transfer Session.waitingSocket { connection := .create 0 } emptyStringMessage
    (fun _ => 1)).2 = 0 := rfl
  have ⟨bytes, hwritten, _, _, _, _, _, hiff⟩ := Call.transfer_roundTrips_iff marshal_emptyStringMessage
    (Connection.Valid.create 0).1 (Prod.ext rfl hsend) (rfl : WlMap.reserveAll { side := .server } [] = _)
  refine ⟨_, bytes, Prod.ext rfl hsend, hwritten, hiff.mpr ?_⟩
  exact { size := by decide, opcode := by decide, objects := by decide, padding := nofun }

-- The bytes after the NUL are those that the memory had before.
theorem Call.not_roundTrips_emptyString :
    Closure.marshal (fun _ fd => some fd) 1 0 ['s'] emptyStringMessage.args rfl = some emptyStringMessage ∧
      (Call.queue.transfer Session.waitingSocket { connection := .create 0 } emptyStringMessage (fun _ => 1)).2 = 0 ∧
      ∀ bytes, ¬RoundTrips .queue emptyStringMessage { side := .server } { side := .server } bytes := by
  refine ⟨rfl, rfl, fun bytes h => ?_⟩
  have hdvd := h.transferable.padding rfl _ (List.mem_singleton_self _) _ rfl
  exact absurd hdvd (by decide)

end Libwayland
