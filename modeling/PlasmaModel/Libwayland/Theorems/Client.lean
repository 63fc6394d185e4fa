import PlasmaModel.Libwayland.Theorems.Proxy
import PlasmaModel.Libwayland.Theorems.Receive

namespace Libwayland

namespace Objects

variable {Interface : Type} {o o' : Objects Interface} {free : List ℕ}

theorem Inv.createProxies (sender : Proxy Interface) (args : List (Argument × Option Interface)) (h : o.Inv free)
    (hids : ∀ entry ∈ args, Reader.ServerId entry.1) :
    (o.createProxies sender args).1.Inv free := by
  induction args generalizing o
  case nil => exact h
  case cons entry others ih =>
    have hall := List.forall_mem_cons.mp hids
    unfold Objects.createProxies
    split
    case h_1 heq => cases heq
    case h_2 id interface others heq =>
      cases heq
      have ⟨hid, hids⟩ := hall
      split
      case isTrue => exact ih h hids
      case isFalse =>
        split
        case h_1 => exact h
        case h_2 o' ho =>
          refine ih (h.proxyCreateForId ?_ ho) hids
          intro hlt
          cases (hid id rfl).symm.trans (ObjectId.side_client hlt)
    case h_3 heq =>
      cases heq
      exact ih h hall.2

end Objects

-- There is a whole message, as far as its header tells.
structure Complete (bytes : List Byte) : Prop where
  header : 8 ≤ bytes.length
  size   : messageSize bytes ≤ bytes.length

namespace Client

variable {Interface : Type} {protocol : Protocol Interface} {d d' d'' : Client Interface}
variable {answers : List Received} {address : ℕ} {proxy : Proxy Interface} {event : Section Interface}

def input (d : Client Interface) : List Byte :=
  d.connection.input.contents

structure Correct (d : Client Interface) : Prop where
  objects : d.objects.Correct
  read    : d.lastError = true ∨ ¬Complete d.input

-- The next message announces that it has no bytes at all, and is for an object that is not there any more.
structure Stuck (d : Client Interface) : Prop where
  header : 8 ≤ d.input.length
  size   : messageSize d.input = 0
  gone   : d.objects.map.lookup (readWord d.input) = 0 ∨ d.objects.map.objectIsZombie (readWord d.input)

structure Sound (d : Client Interface) : Prop where
  objects    : ∃ free, d.objects.Inv free
  connection : d.connection.Valid

structure Inv (d : Client Interface) : Prop extends d.Sound where
  read : d.lastError = true ∨ ¬Complete d.input

theorem Inv.correct (h : d.Inv) : d.Correct :=
  ⟨h.objects.choose_spec.correct, h.read⟩

theorem Inv.spec {P : Prop} (h : d.Inv) (hp : P) : (d.Correct ↔ P) ∧ (P → d.Inv) :=
  ⟨iff_of_true h.correct hp, fun _ => h⟩

theorem Inv.destroy (h : d.Inv) (hl : d.objects.Live address proxy) :
    (Correct { d with objects := d.objects.proxyDestroy protocol address proxy } ↔ ¬d.objects.Dangles address proxy) ∧
    (¬d.objects.Dangles address proxy → Inv { d with objects := d.objects.proxyDestroy protocol address proxy }) := by
  have ⟨free, ho⟩ := h.objects
  by_cases hd : d.objects.Dangles address proxy
  case pos => exact ⟨iff_of_false (fun hc => ho.not_correct hd hc.objects) (not_not.mpr hd), fun hn => absurd hd hn⟩
  case neg =>
    have hinv : Inv { d with objects := d.objects.proxyDestroy protocol address proxy } :=
      ⟨⟨ho.proxyDestroy hl hd, h.connection⟩, h.read⟩
    exact hinv.spec hd

theorem Inv.dispatchEvent {queue : EventQueue} (h : d.Inv) (hd : d.dispatchEvent queue = some d') : d'.Inv := by
  rw [Client.dispatchEvent] at hd
  split at hd
  case h_1 =>
    cases hd
    exact h
  case h_2 event events _ =>
    have ⟨proxy, _, hd⟩ := Option.map_eq_some_iff.mp hd
    subst hd
    rw [invokeEvent]
    repeat' split
    all_goals exact ⟨⟨h.objects, h.connection⟩, h.read⟩

theorem Sound.discardEvent {id : ObjectId} {opcode size : ℕ} (h : d.Sound) (hs : size ≤ d.input.length) :
    (d.discardEvent id opcode size).1.Sound ∧ (d.discardEvent id opcode size).1.lastError = d.lastError ∧
    (d.discardEvent id opcode size).1.input = d.input.drop size ∧ (d.discardEvent id opcode size).2 = .size size := by
  have ⟨hinput, hcontents⟩ := h.connection.input.consume (h.connection.input.length_contents ▸ hs)
  have hfds : (if 0 < d.objects.numZombieFds (d.objects.map.lookup id) opcode then
      d.connection.fdsIn.closeFds (d.objects.numZombieFds (d.objects.map.lookup id) opcode)
      else (d.connection.fdsIn, [])).1.Valid := by
    split
    case isTrue hpos => exact (RingBuffer.Valid.closeFds h.connection.fdsIn hpos).1
    case isFalse => exact h.connection.fdsIn
  exact ⟨⟨h.objects, { h.connection with input := hinput, fdsIn := hfds }⟩, rfl, hcontents, rfl⟩

theorem Sound.enqueueEvent (address : ℕ) (proxy : Proxy Interface) (closure : Closure) (size : ℕ) (h : d.Sound) :
    (d.enqueueEvent address proxy closure size).1.Sound ∧
    (d.enqueueEvent address proxy closure size).1.lastError = d.lastError ∧
    (d.enqueueEvent address proxy closure size).1.input = d.input ∧
    ∀ n, (d.enqueueEvent address proxy closure size).2 = .size n → n = size := by
  rw [Client.enqueueEvent]
  split
  case h_1 => exact ⟨h, rfl, rfl, nofun⟩
  case h_2 =>
    exact ⟨⟨h.objects, h.connection⟩, rfl, rfl, fun n hn => (QueueResult.size.inj hn).symm⟩

theorem inv_connect : Inv (connect protocol) := by
  have hvalid := (Connection.Valid.create 0).1
  have hinput : (Connection.create 0).input.contents = [] := (RingBuffer.setMaxSizeBits_empty 0).2
  have hempty : Objects.Inv { map := { side := .client, clientEntries := [0] } : Objects Interface } [] :=
    ⟨.empty fun _ _ ⟨_, hl, _⟩ => (nomatch hl.heap), nofun⟩
  exact ⟨⟨hempty.proxyCreate, hvalid⟩, .inr fun hc => by
    have hheader := hc.header
    rw [input, connect, hinput] at hheader
    cases hheader⟩

variable [DecidableEq Interface]

-- The states in which the loop of `read_events` calls `queue_event`, and the one in which it ends.
inductive Loops (protocol : Protocol Interface) : Client Interface → Client Interface → Prop
  | refl {c} : Loops protocol c c
  | next {c c₁ c₂ size} : 8 ≤ c.input.length → c.queueEvent protocol c.input.length = (c₁, .size size) → size ≠ 0 →
    Loops protocol c₁ c₂ → Loops protocol c c₂

-- What every step has to avoid: an id that is not the client's is deleted before the proxy is destroyed which the map
-- finds for it, and a message without bytes is read for an object that is not there any more.
def Avoids (protocol : Protocol Interface) (d : Client Interface) : Section Interface → Prop
  | .destroy address => ∀ proxy, d.objects.proxyAt address = some proxy → ¬d.objects.Dangles address proxy
  | .readEvents answers => d.lastError = false → ∀ connection total,
    d.connection.read answers = some (connection, .size total) →
    ∀ d', Loops protocol { d with connection } d' → ¬d'.Stuck
  | _ => True

structure QueueResult.Spec (d : Client Interface) (result : Client Interface × QueueResult) : Prop where
  sound     : result.1.Sound
  lastError : result.1.lastError = d.lastError
  stuck     : d.Stuck → result.2 = .size 0
  size      : ∀ size, result.2 = .size size → size ≤ d.input.length ∧ result.1.input = d.input.drop size ∧
    (size = 0 → d.Stuck ∨ ¬Complete d.input)

theorem Sound.demarshalEvent {message : Message Interface} {size : ℕ} (h : d.Sound) (hs : size ≤ d.input.length) :
    (d.demarshalEvent address proxy message size).1.Sound ∧
    (d.demarshalEvent address proxy message size).1.lastError = d.lastError ∧
    ∀ n, (d.demarshalEvent address proxy message size).2 = .size n → n = size ∧ 8 ≤ size ∧
      (d.demarshalEvent address proxy message size).1.input = d.input.drop size := by
  have ⟨free, ho⟩ := h.objects
  generalize heq : d.connection.demarshal size d.objects.map message.signature = result
  have ⟨connection, map, closure⟩ := result
  have ⟨hconnection, hinput, hmap, hids⟩ := h.connection.demarshal hs ho.map.side (P := (·.Holds _ _ free)) ho.map
    (fun _ hm => hm.reserve) heq
  have hobjects : Objects.Inv { d.objects with map } free := ho.withMap hmap
  rw [Client.demarshalEvent, heq]
  dsimp only
  split
  case h_1 => exact ⟨⟨⟨free, hobjects⟩, hconnection⟩, rfl, nofun⟩
  case h_2 c =>
    have ⟨hsize, hids⟩ := hids c rfl
    have hcreated := hobjects.createProxies proxy (c.args.zip message.types)
      fun entry hentry => hids _ (List.of_mem_zip hentry).1
    split
    case isTrue =>
      have hsound : Sound { d with
          connection, objects := (Objects.createProxies { d.objects with map } proxy (c.args.zip message.types)).1 } :=
        ⟨⟨free, hcreated⟩, hconnection⟩
      have ⟨hs, he, hi, hn⟩ := hsound.enqueueEvent address proxy c size
      exact ⟨hs, he, fun n hsize' => ⟨hn n hsize', hsize, hi.trans hinput⟩⟩
    case isFalse => exact ⟨⟨⟨free, hcreated⟩, hconnection⟩, rfl, nofun⟩

-- What `queue_event` reads first are the fields of the header.
theorem Sound.queueEvent (protocol : Protocol Interface) (h : d.Sound) (hheader : 8 ≤ d.input.length) :
    QueueResult.Spec d (d.queueEvent protocol d.input.length) := by
  have ⟨hid, hword⟩ := h.connection.header hheader
  have hsize : (readWord (d.connection.input.contents.drop 4) >>> 16).toNat = messageSize d.input := rfl
  rw [Client.queueEvent]
  simp only [hid, hword, hsize]
  split
  case isTrue hmax =>
    refine ⟨h, rfl, fun hs => ?_, nofun⟩
    rw [hs.size] at hmax
    exact absurd hmax (Nat.not_lt_zero _)
  case isFalse =>
    split
    case isTrue hlt =>
      refine ⟨h, rfl, fun _ => rfl, fun size hsize => ?_⟩
      cases hsize
      exact ⟨Nat.zero_le _, rfl, fun _ => .inr fun hc => Nat.not_lt.mpr hc.size hlt⟩
    case isFalse hle =>
      have hle := not_lt.mp hle
      split
      case isTrue hgone =>
        refine ⟨(h.discardEvent hle).1, (h.discardEvent hle).2.1, fun hs => ?_, fun size heq => ?_⟩
        · rw [(h.discardEvent hle).2.2.2, hs.size]
        · have hn := QueueResult.size.inj ((h.discardEvent hle).2.2.2.symm.trans heq)
          subst hn
          exact ⟨hle, (h.discardEvent hle).2.2.1, fun hzero => .inl ⟨hheader, hzero, hgone⟩⟩
      case isFalse hthere =>
        split
        case h_1 => exact ⟨h, rfl, fun hs => absurd hs.gone hthere, nofun⟩
        case h_2 proxy _ =>
          split
          case h_1 => exact ⟨h, rfl, fun hs => absurd hs.gone hthere, nofun⟩
          case h_2 message _ =>
            refine ⟨(h.demarshalEvent hle).1, (h.demarshalEvent hle).2.1, fun hs => absurd hs.gone hthere,
              fun size heq => ?_⟩
            have ⟨hn, h8, hinput⟩ := (h.demarshalEvent hle).2.2 size heq
            subst hn
            exact ⟨hle, hinput, fun hzero => by omega⟩

-- The loop ends when there is no header.
theorem loops_of_short (hlt : d.input.length < 8) :
    (d.lastError = true ∨ ¬Complete d.input) ↔ ∀ c, Loops protocol d c → ¬c.Stuck := by
  refine iff_of_true (.inr fun hc => Nat.not_lt.mpr hc.header hlt) fun c hc hs => ?_
  cases hc with
  | refl => exact Nat.not_lt.mpr hs.header hlt
  | next h8 => exact Nat.not_lt.mpr h8 hlt

-- By induction on the rounds: what is left is read completely unless the loop gets stuck.
theorem Sound.queueEvents {rounds : ℕ} (h : d.Sound) (h0 : d.lastError = false) (hr : d.input.length ≤ rounds)
    (hq : d.queueEvents protocol rounds d.input.length = some d') :
    d'.Sound ∧ ((d'.lastError = true ∨ ¬Complete d'.input) ↔ ∀ c, Loops protocol d c → ¬c.Stuck) := by
  induction rounds generalizing d
  case zero =>
    cases hq
    exact ⟨h, loops_of_short (by omega)⟩
  case succ rounds ih =>
    rw [Client.queueEvents] at hq
    split at hq
    case isTrue hlt =>
      cases hq
      exact ⟨h, loops_of_short hlt⟩
    case isFalse hle =>
      have hheader := not_lt.mp hle
      have hspec := h.queueEvent protocol hheader
      generalize heq : d.queueEvent protocol d.input.length = result at hspec hq
      have ⟨d₁, result⟩ := result
      cases result with
      | aborted => cases hq
      | failed =>
        cases hq
        refine ⟨⟨hspec.sound.objects, hspec.sound.connection⟩, iff_of_true (.inl rfl) fun c hc hs => ?_⟩
        cases hc with
        | refl => cases hspec.stuck hs
        | next _ hsize => cases heq.symm.trans hsize
      | size size =>
        have ⟨hsize, hinput, hzero⟩ := hspec.size size rfl
        dsimp only at hinput
        simp only [proceed] at hq
        split at hq
        case isTrue hz =>
          cases hq
          subst hz
          rw [List.drop_zero] at hinput
          refine ⟨hspec.sound, ?_⟩
          rw [hspec.lastError, h0, hinput]
          constructor
          case mp =>
            intro hc c hloop
            have hnot : ¬d.Stuck := fun hs => hc.elim nofun fun hc => hc ⟨hs.header, hs.size ▸ Nat.zero_le _⟩
            cases hloop with
            | refl => exact hnot
            | next _ heq' hne =>
              cases heq.symm.trans heq'
              exact absurd rfl hne
          case mpr =>
            intro hall
            exact .inr ((hzero rfl).resolve_left (hall d .refl))
        case isFalse hne =>
          have hlength : d.input.length - size = d₁.input.length := by rw [hinput, List.length_drop]
          rw [hlength] at hq
          have hsound₁ : d₁.Sound := hspec.sound
          have ⟨hsound, hiff⟩ := ih hsound₁ (hspec.lastError.trans h0) (by omega) hq
          refine ⟨hsound, hiff.trans ⟨fun hall c hc => ?_, fun hall c hc => hall c (.next hheader heq hne hc)⟩⟩
          cases hc with
          | refl => exact fun hs => hne (QueueResult.size.inj (hspec.stuck hs))
          | next _ heq' _ hc =>
            cases heq.symm.trans heq'
            exact hall c hc

section Step

theorem Inv.readEvents (h : d.Inv) (h0 : d.lastError = false) (hr : d.readEvents protocol answers = some d') :
    (d'.Correct ↔ Avoids protocol d (.readEvents answers)) ∧ (Avoids protocol d (.readEvents answers) → d'.Inv) := by
  rw [Client.readEvents] at hr
  split at hr
  case h_1 => cases hr
  case h_2 connection heq =>
    cases hr
    have ⟨hv, hempty⟩ := h.connection.read heq
    have hinv : Inv { d with connection } := ⟨⟨h.objects, hv⟩, .inr fun hc => by
      have hheader := hc.header
      rw [input, hempty] at hheader
      cases hheader⟩
    refine hinv.spec fun _ connection' total heq' => ?_
    cases heq.symm.trans heq'
  case h_3 connection heq =>
    cases hr
    have hinv : Inv { d with connection, lastError := true } := ⟨⟨h.objects, (h.connection.read heq).1⟩, .inl rfl⟩
    refine hinv.spec fun _ connection' total heq' => ?_
    cases heq.symm.trans heq'
  case h_4 connection total heq =>
    have ⟨hv, htotal⟩ := h.connection.read heq
    have hsound : Sound { d with connection } := ⟨h.objects, hv⟩
    have havoids : Avoids protocol d (.readEvents answers) ↔
        ∀ c, Loops protocol { d with connection } c → ¬c.Stuck := by
      refine ⟨fun ha => ha h0 connection total heq, fun ha _ connection' total' heq' => ?_⟩
      cases heq.symm.trans heq'
      exact ha
    rw [havoids]
    split at hr
    case isTrue hzero =>
      cases hr
      have hlt : (input { d with connection }).length < 8 := by
        rw [input, htotal, hzero]
        decide
      have hinv : Inv { d with connection, lastError := true } := ⟨⟨h.objects, hv⟩, .inl rfl⟩
      exact hinv.spec ((loops_of_short hlt).mp (.inr fun hc => Nat.not_lt.mpr hc.header hlt))
    case isFalse =>
      have hlength : (input { d with connection }).length = total := htotal
      rw [← hlength] at hr
      have ⟨hs, hiff⟩ := hsound.queueEvents h0 (Nat.le_refl _) hr
      rw [← hiff]
      exact ⟨⟨Correct.read, fun hread => ⟨hs.objects.choose_spec.correct, hread⟩⟩, fun hread => ⟨hs, hread⟩⟩

theorem Inv.step_spec (h : d.Inv) (hs : d.step protocol event = some d') :
    (d'.Correct ↔ Avoids protocol d event) ∧ (Avoids protocol d event → d'.Inv) := by
  have ⟨free, ho⟩ := h.objects
  cases event with
  | create interface queue =>
    cases hs
    have hinv : Inv { d with objects := (d.objects.proxyCreate interface (some queue)).1 } :=
      ⟨⟨ho.proxyCreate, h.connection⟩, h.read⟩
    exact hinv.spec trivial
  | addListener address =>
    rw [Client.step] at hs
    split at hs
    case h_2 => cases hs
    case h_1 proxy hp =>
      split at hs
      case isTrue => cases hs
      case isFalse ha =>
        cases hs
        have hinv : Inv { d with objects := d.objects.setProxy address { proxy with listener := true } } :=
          ⟨⟨⟨free, ho.setProxy ⟨hp, Bool.eq_false_of_not_eq_true ha⟩ (Bool.eq_false_of_not_eq_true ha) rfl⟩,
            h.connection⟩, h.read⟩
        exact hinv.spec trivial
  | destroy address =>
    rw [Client.step] at hs
    split at hs
    case h_2 => cases hs
    case h_1 proxy hp =>
      split at hs
      case isTrue => cases hs
      case isFalse ha =>
        cases hs
        have hl : d.objects.Live address proxy := ⟨hp, Bool.eq_false_of_not_eq_true (not_or.mp ha).1⟩
        have havoids : Avoids protocol d (.destroy address) ↔ ¬d.objects.Dangles address proxy :=
          ⟨fun ha => ha proxy hp, fun ha proxy' hp' => by cases hp.symm.trans hp'; exact ha⟩
        rw [havoids]
        exact h.destroy hl
  | readEvents answers =>
    rw [Client.step] at hs
    split at hs
    case isTrue he =>
      cases hs
      exact h.spec fun h0 => absurd he (by simp [h0])
    case isFalse he => exact h.readEvents (Bool.eq_false_of_not_eq_true he) hs
  | dispatchEvent queue =>
    rw [Client.step] at hs
    split at hs
    case isTrue =>
      cases hs
      exact h.spec trivial
    case isFalse => exact (h.dispatchEvent hs).spec trivial
  | handle i =>
    rw [Client.step] at hs
    split at hs
    case h_2 => cases hs
    case h_1 event _ =>
      cases hs
      cases event with
      | error =>
        have hinv : Inv ({ d with handlers := d.handlers.eraseIdx i }.handleDisplayEvent .error) :=
          ⟨⟨⟨free, ho⟩, h.connection⟩, .inl rfl⟩
        exact hinv.spec trivial
      | deleteId id =>
        have hinv : Inv ({ d with handlers := d.handlers.eraseIdx i }.handleDisplayEvent (.deleteId id)) :=
          ⟨⟨ho.handleDeleteId, h.connection⟩, h.read⟩
        exact hinv.spec trivial

end Step

theorem always_reliable_iff (protocol : Protocol Interface) (events : List (Section Interface)) :
    Machine.Always (step protocol) Correct (connect protocol) events ↔
      Machine.EachStep (step protocol) (Avoids protocol) (connect protocol) events :=
  Machine.Always.iff_eachStep inv_connect Inv.correct fun h hs => h.step_spec hs

-- A protocol without any interface but that of the display.
def coreProtocol : Protocol Unit where
  events        := fun _ => [
    { signature := ['o', 'u', 's'], types := [none, none, none], length := by decide, newIds := by decide },
    { signature := ['u'], types := [none], length := by decide, newIds := by decide }]
  display       := ()
  displayEvents := rfl

-- An event for the object 5, which there never was, of 0 bytes.
theorem step_emptyEvent : (step coreProtocol (connect coreProtocol)
    (.readEvents [.data [5, 0, 0, 0, 0, 0, 0, 0] []])).map (fun d => (d.lastError, d.input)) =
    some (false, [5, 0, 0, 0, 0, 0, 0, 0]) := by
  decide +kernel

theorem not_always_reliable : ¬Machine.Always (step coreProtocol) Correct (connect coreProtocol)
    [.readEvents [.data [5, 0, 0, 0, 0, 0, 0, 0] []]] := by
  have ⟨d, hs, hd⟩ := Option.map_eq_some_iff.mp step_emptyEvent
  intro h
  have hcorrect := (h.2 d hs).start
  have ⟨he, hi⟩ := Prod.mk.inj hd
  refine hcorrect.read.elim (fun ht => nomatch he.symm.trans ht) fun hc => hc ?_
  rw [hi]
  exact ⟨by decide, by decide⟩

end Client

end Libwayland
