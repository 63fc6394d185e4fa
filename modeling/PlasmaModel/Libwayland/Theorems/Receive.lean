import PlasmaModel.Libwayland.Client
import PlasmaModel.Libwayland.Theorems.Map
import PlasmaModel.Libwayland.Theorems.Transferred

namespace Libwayland

variable {connection connection' : Connection} {answers : List Received} {result : ReadResult} {fds : List Fd}
variable {bytes : List Byte} {size : ℕ} {objects objects' : WlMap} {signature : Signature} {closure : Option Closure}

theorem Connection.Valid.decodeCmsg (h : connection.Valid) (hd : connection.decodeCmsg fds = some connection') :
    connection'.Valid ∧ connection'.input = connection.input ∧
    connection'.fdsIn.contents = connection.fdsIn.contents ++ fds := by
  rw [Connection.decodeCmsg] at hd
  split at hd
  case isTrue hnil =>
    cases hd
    exact ⟨h, rfl, by rw [hnil, List.append_nil]⟩
  case isFalse =>
    have ⟨fdsIn, he, hd⟩ := Option.map_eq_some_iff.mp hd
    subst hd
    have ⟨hvalid, hcontents⟩ := h.fdsIn.ensureSpace_put he
    exact ⟨{ h with fdsIn := hvalid }, rfl, hcontents⟩

-- What the result of a call of `wl_connection_read` tells about the bytes that are there then.
def ReadResult.Tells (result : ReadResult) (connection : Connection) : Prop :=
  match result with
  | .size size => connection.input.contents.length = size
  | .eagain => connection.input.contents = []
  | .failed => True

theorem size_eq (h : connection.Valid) : connection.input.size = connection.input.contents.length := by
  rw [h.input.length_contents]
  exact Nat.mul_one _

theorem Connection.Valid.read (h : connection.Valid) (hr : connection.read answers = some (connection', result)) :
    connection'.Valid ∧ result.Tells connection' := by
  induction answers generalizing connection
  case nil =>
    rw [Connection.read] at hr
    split at hr
    case isTrue =>
      cases hr
      exact ⟨h, (size_eq h).symm⟩
    case isFalse =>
      split at hr
      case h_1 =>
        cases hr
        exact ⟨h, trivial⟩
      case h_2 input he =>
        cases hr
        have hvalid : Connection.Valid { connection with input } := { h with input := (h.input.ensureSpace he).1 }
        have hsize := size_eq hvalid
        refine ⟨hvalid, ?_⟩
        split
        case isTrue => exact hsize.symm
        case isFalse hzero => exact List.length_eq_zero_iff.mp (hsize.symm.trans (Nat.eq_zero_of_not_pos hzero))
  case cons received answers ih =>
    rw [Connection.read] at hr
    split at hr
    case isTrue =>
      cases hr
      exact ⟨h, (size_eq h).symm⟩
    case isFalse =>
      split at hr
      case h_1 =>
        cases hr
        exact ⟨h, trivial⟩
      case h_2 input he =>
        have hvalid : Connection.Valid { connection with input } := { h with input := (h.input.ensureSpace he).1 }
        cases received with
        | eof =>
          cases hr
          exact ⟨hvalid, (size_eq hvalid).symm⟩
        | failed =>
          cases hr
          exact ⟨hvalid, trivial⟩
        | data bytes fds =>
          dsimp only at hr
          split at hr
          case isTrue => cases hr
          case isFalse hfits =>
            split at hr
            case h_1 =>
              cases hr
              exact ⟨hvalid, trivial⟩
            case h_2 connection₁ hd =>
              have ⟨hvalid₁, hinput, _⟩ := hvalid.decodeCmsg hd
              have hroom := not_lt.mp (not_or.mp hfits).2
              have hvalid₂ : Connection.Valid { connection₁ with input := input.put bytes } :=
                { hvalid₁ with input := (hvalid.input.put hroom).1 }
              exact ih hvalid₂ hr

-- The word that is read needs no more than its own bytes.
theorem readWord_take {n : ℕ} (hn : 4 ≤ n) : readWord (bytes.take n) = readWord bytes := by
  have hget {i : ℕ} (hi : i < 4) : (bytes.take n).getD i 0 = bytes.getD i 0 := by
    rw [List.getD_eq_getElem?_getD, List.getD_eq_getElem?_getD, List.getElem?_take_of_lt (hi.trans_le hn)]
  simp only [readWord, hget (by decide : 0 < 4), hget (by decide : 1 < 4), hget (by decide : 2 < 4),
    hget (by decide : 3 < 4)]

theorem Connection.Valid.header (h : connection.Valid) (hlength : 8 ≤ connection.input.contents.length) :
    readWord (connection.input.copy 8) = readWord connection.input.contents ∧
    readWord ((connection.input.copy 8).drop 4) = readWord (connection.input.contents.drop 4) := by
  rw [h.input.copy (h.input.length_contents ▸ hlength), List.drop_take]
  exact ⟨readWord_take (by decide), readWord_take (by decide)⟩

namespace Reader

variable {r r' : Reader} {details : ArgumentDetails} {arg : Argument} {args : List Argument}

-- What a connection still holds when an argument is read, on the side of the client.
structure Kept (P : WlMap → Prop) (r : Reader) : Prop where
  fdsIn   : r.fdsIn.Valid
  objects : P r.objects
  side    : r.objects.side = .client

variable {P : WlMap → Prop}

theorem Kept.demarshalNewId (hp : ∀ map, P map → P { map with serverEntries := map.serverEntries ++ [0] })
    (h : Kept P r) : Kept P r.demarshalNewId.1 ∧
    ∀ id, r.demarshalNewId.2 = some (.newId (some id)) → ObjectId.side id = .server := by
  rw [Reader.demarshalNewId]
  split
  case isTrue => exact ⟨⟨h.fdsIn, h.objects, h.side⟩, by simp⟩
  case isFalse =>
    split
    case h_1 => exact ⟨⟨h.fdsIn, h.objects, h.side⟩, by simp⟩
    case h_2 objects hreserve =>
      obtain ⟨hid, hsame⟩ := WlMap.reserveNew_client h.side hreserve
      constructor
      case left =>
        cases hsame with
        | inl heq => exact heq ▸ ⟨h.fdsIn, h.objects, h.side⟩
        | inr heq => exact heq ▸ ⟨h.fdsIn, hp _ h.objects, h.side⟩
      case right =>
        intro id heq
        rw [← Option.some.inj (Argument.newId.inj (Option.some.inj heq))]
        exact hid

theorem Kept.demarshalFd (h : Kept P r) : Kept P r.demarshalFd.1 := by
  rw [Reader.demarshalFd]
  split
  case isTrue => exact h
  case isFalse hne =>
    have hordered := h.fdsIn.ordered
    have hcount : 1 ≤ r.fdsIn.count := by
      rw [RingBuffer.count]
      omega
    exact ⟨(h.fdsIn.consume hcount).1, h.objects, h.side⟩

theorem Kept.skip (h : Kept P r) (n : ℕ) : Kept P (r.skip n) :=
  ⟨h.fdsIn, h.objects, h.side⟩

-- A new id is one of the server.
def ServerId (arg : Argument) : Prop :=
  ∀ id, arg = .newId (some id) → ObjectId.side id = .server

theorem Kept.demarshalArg (details : ArgumentDetails)
    (hp : ∀ map, P map → P { map with serverEntries := map.serverEntries ++ [0] })
    (h : Kept P r) : Kept P (r.demarshalArg details).1 ∧ ∀ arg, (r.demarshalArg details).2 = some arg → ServerId arg := by
  obtain ⟨type, nullable⟩ := details
  rw [Reader.demarshalArg]
  split
  case isTrue => exact ⟨h, by simp⟩
  case isFalse =>
    cases type
    case newId =>
      obtain ⟨hkept, hid⟩ := h.demarshalNewId hp
      exact ⟨hkept, fun arg harg id heq => hid id (heq ▸ harg)⟩
    case fd =>
      refine ⟨h.demarshalFd, ?_⟩
      simp only [Reader.demarshalFd]
      split
      case isTrue => simp
      case isFalse =>
        intro arg harg id heq
        obtain ⟨_, _, hfd⟩ := Option.map_eq_some_iff.mp harg
        cases hfd.trans heq
    case uint | int | fixed => exact ⟨h.skip 4, fun arg harg _ heq => by cases harg; cases heq⟩
    case string =>
      simp only [demarshalString]
      repeat' split
      all_goals refine ⟨?_, fun arg harg _ heq => by cases harg <;> cases heq⟩
      all_goals first | exact (h.skip _).skip _ | exact h.skip _
    case object =>
      simp only [demarshalObject]
      repeat' split
      all_goals exact ⟨⟨h.fdsIn, h.objects, h.side⟩, fun arg harg _ heq => by cases harg <;> cases heq⟩
    case array =>
      simp only [demarshalArray]
      split
      case isTrue => exact ⟨h.skip 4, by simp⟩
      case isFalse => exact ⟨(h.skip 4).skip _, fun arg harg _ heq => by cases harg; cases heq⟩

theorem Kept.demarshalArgs (details : List ArgumentDetails)
    (hp : ∀ map, P map → P { map with serverEntries := map.serverEntries ++ [0] }) (h : Kept P r) : Kept P (r.demarshalArgs details).1 ∧
    ∀ args, (r.demarshalArgs details).2 = some args → ∀ arg ∈ args, ServerId arg := by
  induction details generalizing r
  case nil => exact ⟨h, fun args hargs => by cases hargs; simp⟩
  case cons details others ih =>
    obtain ⟨hkept, hid⟩ := h.demarshalArg details hp
    rw [Reader.demarshalArgs]
    split
    case h_1 heq =>
      rw [heq] at hkept
      exact ⟨hkept, by simp⟩
    case h_2 arg heq =>
      rw [heq] at hkept hid
      obtain ⟨hrest, hids⟩ := ih hkept
      refine ⟨hrest, fun args hargs => ?_⟩
      obtain ⟨rest, hrest, hcons⟩ := Option.map_eq_some_iff.mp hargs
      subst hcons
      exact List.forall_mem_cons.mpr ⟨hid arg rfl, hids rest hrest⟩

end Reader

-- The message is consumed whether it is well formed or not.
theorem Connection.Valid.demarshal {P : WlMap → Prop} (h : connection.Valid)
    (hs : size ≤ connection.input.contents.length) (hside : objects.side = .client) (ho : P objects)
    (hp : ∀ map, P map → P { map with serverEntries := map.serverEntries ++ [0] })
    (hd : connection.demarshal size objects signature = (connection', objects', closure)) :
    connection'.Valid ∧ connection'.input.contents = connection.input.contents.drop size ∧ P objects' ∧
    ∀ c, closure = some c → 8 ≤ size ∧ ∀ arg ∈ c.args, Reader.ServerId arg := by
  rw [h.input.length_contents] at hs
  obtain ⟨hconsumed, hcontents⟩ := h.input.consume hs
  have hvalid : (connection.consume size).Valid := { h with input := hconsumed }
  rw [Connection.demarshal] at hd
  split at hd
  case isTrue =>
    cases hd
    exact ⟨hvalid, hcontents, ho, by simp⟩
  case isFalse hsize =>
    split at hd
    case isTrue =>
      cases hd
      exact ⟨hvalid, hcontents, ho, by simp⟩
    case isFalse =>
      have hkept : Reader.Kept P { rest := (connection.input.copy size).take (size / 4 * 4) |>.drop 8,
                                   fdsIn := connection.fdsIn, objects } := ⟨h.fdsIn, ho, hside⟩
      obtain ⟨hread, hids⟩ := hkept.demarshalArgs (argumentDetails signature) hp
      dsimp only at hd
      split at hd
      case h_1 heq =>
        cases hd
        rw [heq] at hread
        exact ⟨{ hvalid with fdsIn := hread.fdsIn }, hcontents, hread.objects, by simp⟩
      case h_2 args heq =>
        cases hd
        rw [heq] at hread hids
        refine ⟨{ hvalid with fdsIn := hread.fdsIn }, hcontents, hread.objects, fun c hc => ?_⟩
        cases hc
        exact ⟨not_lt.mp hsize, hids args rfl⟩

end Libwayland
