import PlasmaModel.Libwayland.Theorems.Client

-- What is received is buffered until it is consumed.
namespace Libwayland

namespace Connection

-- The bytes that the calls of `recvmsg` give which one call of `wl_connection_read` makes.
def received (connection : Connection) : List Received → List Byte
  | .data bytes fds :: answers =>
    if connection.input.isMaxSizeReached then
      []
    else
      match connection.input.ensureSpace 1 with
      | none => []
      | some input =>
        match ({ connection with input } : Connection).decodeCmsg fds with
        | none => bytes
        | some connection => bytes ++ { connection with input := input.put bytes }.received answers
  | _ => []

variable {connection connection' : Connection} {answers : List Received} {result : ReadResult} {fds : List Fd}
variable {bytes : List Byte}

-- Only if their file descriptors do not fit, bytes are lost.
structure Reads (connection connection' : Connection) (answers : List Received) (result : ReadResult) : Prop where
  valid : connection'.Valid
  kept  : ∃ bytes lost, connection'.input.contents = connection.input.contents ++ bytes ∧
    connection.received answers = bytes ++ lost ∧ (result ≠ .failed → lost = [])

theorem Valid.reads (h : connection.Valid) (hr : connection.read answers = some (connection', result)) :
    connection.Reads connection' answers result := by
  refine ⟨(h.read hr).1, ?_⟩
  induction answers generalizing connection with
  | nil =>
    refine ⟨[], [], ?_, rfl, fun _ => rfl⟩
    rw [List.append_nil]
    rw [Connection.read] at hr
    split at hr
    case isTrue => cases hr; rfl
    case isFalse =>
      split at hr
      case h_1 => cases hr; rfl
      case h_2 input he =>
        cases hr
        exact (h.input.ensureSpace he).2.1
  | cons answer answers ih =>
    rw [Connection.read] at hr
    split at hr
    case isTrue hmax =>
      cases hr
      refine ⟨[], [], (List.append_nil _).symm, ?_, fun _ => rfl⟩
      cases answer <;> simp [Connection.received, hmax]
    case isFalse hmax =>
      split at hr
      case h_1 he =>
        cases hr
        refine ⟨[], [], (List.append_nil _).symm, ?_, fun _ => rfl⟩
        cases answer <;> simp [Connection.received, he]
      case h_2 input he =>
        obtain ⟨hinput, hcontents, _⟩ := h.input.ensureSpace he
        cases answer with
        | eof => cases hr; exact ⟨[], [], by rw [List.append_nil, hcontents], rfl, fun _ => rfl⟩
        | failed => cases hr; exact ⟨[], [], by rw [List.append_nil, hcontents], rfl, fun _ => rfl⟩
        | data bytes fds =>
          dsimp only at hr
          rw [Connection.received, if_neg hmax, he]
          dsimp only
          split at hr
          case isTrue => cases hr
          case isFalse hfits =>
            have hvalid : Connection.Valid { connection with input } := { h with input := hinput }
            cases hd : Connection.decodeCmsg { connection with input } fds with
            | none =>
              rw [hd] at hr
              cases hr
              exact ⟨[], bytes, by rw [List.append_nil, hcontents], rfl, fun hne => absurd rfl hne⟩
            | some connection₁ =>
              rw [hd] at hr
              have hput := hinput.put (not_lt.mp (not_or.mp hfits).2)
              have hvalid₂ : Connection.Valid { connection₁ with input := input.put bytes } :=
                { (hvalid.decodeCmsg hd).1 with input := hput.1 }
              obtain ⟨more, lost, hmore, hreceived, hfailed⟩ := ih hvalid₂ hr
              refine ⟨bytes ++ more, lost, ?_, ?_, hfailed⟩
              case refine_2 =>
                dsimp only
                rw [hreceived, List.append_assoc]
              rw [hmore, hput.2, hcontents, List.append_assoc]

end Connection

-- A connection that is read from, with all the bytes that `recvmsg` gave so far and the number of those consumed.
structure Receiver where
  connection : Connection
  received   : List Byte := []
  consumed   : ℕ := 0
  failed     : Bool := false

namespace Receiver

inductive Event
  | read (answers : List Received)
  | consume (size : ℕ)
  | setMaxBufferSize (maxBufferSize : ℕ)

-- After an error there is nothing but to disconnect.
def step (r : Receiver) (event : Event) : Option Receiver :=
  if r.failed then
    none
  else
    match event with
    | .read answers => (r.connection.read answers).map fun (connection, result) =>
      { r with connection, received := r.received ++ r.connection.received answers, failed := result = .failed }
    | .consume size =>
      if size ≤ r.connection.input.size then
        some { r with connection := r.connection.consume size, consumed := r.consumed + size }
      else
        none
    | .setMaxBufferSize maxBufferSize => some { r with connection := r.connection.setMaxBufferSize maxBufferSize }

-- What is buffered is what was received and not consumed.
structure Streams (r : Receiver) : Prop where
  valid    : r.connection.Valid
  consumed : r.consumed ≤ r.received.length
  ofPrefix : r.connection.input.contents <+: r.received.drop r.consumed
  all      : r.failed = false → r.connection.input.contents = r.received.drop r.consumed

variable {r r' : Receiver} {event : Event} {maxBufferSize m : ℕ}

theorem Streams.step (h : r.Streams) (hs : r.step event = some r') : r'.Streams := by
  unfold Receiver.step at hs
  split at hs
  case isTrue => cases hs
  case isFalse hfailed =>
    have hall := h.all (Bool.eq_false_iff.mpr hfailed)
    cases event with
    | read answers =>
      have ⟨(connection, result), hr, hs⟩ := Option.map_eq_some_iff.mp hs
      subst hs
      have ⟨hvalid, bytes, lost, hbytes, hreceived, hlost⟩ := h.valid.reads hr
      have hdrop : (r.received ++ r.connection.received answers).drop r.consumed =
          connection.input.contents ++ lost := by
        rw [List.drop_append_of_le_length h.consumed, ← hall, hreceived, hbytes, List.append_assoc]
      refine ⟨hvalid, ?_, ?_, fun hok => ?_⟩
      · rw [List.length_append]
        exact h.consumed.trans (Nat.le_add_right _ _)
      · rw [hdrop]
        exact List.prefix_append _ _
      · rw [hdrop, hlost (of_decide_eq_false hok), List.append_nil]
    | consume size =>
      have ⟨hle, hs⟩ := Option.ite_none_right_eq_some.mp hs
      cases hs
      rw [size_eq h.valid, hall, List.length_drop] at hle
      have hcount : size ≤ r.connection.input.count := by
        rw [← h.valid.input.length_contents, hall, List.length_drop]
        exact hle
      have ⟨hinput, hcontents⟩ := h.valid.input.consume hcount
      have hdrop : (r.connection.consume size).input.contents = r.received.drop (r.consumed + size) := by
        rw [← List.drop_drop, ← hall]
        exact hcontents
      have hconsumed := h.consumed
      exact ⟨{ h.valid with input := hinput }, by dsimp only; omega, hdrop ▸ List.prefix_rfl, fun _ => hdrop⟩
    | setMaxBufferSize maxBufferSize =>
      cases hs
      have ⟨hvalid, hholds⟩ := h.valid.setMaxBufferSize maxBufferSize
      have hdrop : (r.connection.setMaxBufferSize maxBufferSize).input.contents = r.received.drop r.consumed :=
        hholds.1.trans hall
      exact ⟨hvalid, h.consumed, hdrop ▸ List.prefix_rfl, fun _ => hdrop⟩

end Receiver
end Libwayland
