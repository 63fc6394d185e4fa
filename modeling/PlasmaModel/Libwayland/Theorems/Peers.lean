import PlasmaModel.Libwayland.Theorems.Tracked

namespace Libwayland.Peers

variable {Interface : Type} {protocol : Protocol Interface} {methods : Interface → List Method}
variable {d d' : Peers Interface} {request : Request Interface} {requests : List (Request Interface)}
variable {known known' : Address → Prop} {event : PostedEvent} {events : List PostedEvent}
variable {has has' : ObjectId → Address → Prop} {a : ℕ} {p : Proxy Interface} {o' : Objects Interface}
variable {method : Method} {newIds : List (NewId Interface)}

-- No id is rejected, none is given again unless the object that had it is gone for both, and no listener is called with
-- an event of another object.
structure Agrees (d : Peers Interface) : Prop where
  accepted   : d.server.error = false
  reused     : ∀ a b p q, a < b → d.objects.proxyAt a = some p → d.objects.proxyAt b = some q → p.id = q.id →
    p.destroyed = true ∧ a ∈ d.deleted
  dispatched : ∀ queued ∈ d.dispatched, queued.event.proxy = queued.proxy

def sent (d : Peers Interface) : List (NewId Interface) :=
  d.requests.flatMap Request.newIds

def gone (d : Peers Interface) : List (ObjectId × Address) :=
  (d.handlers ++ (d.queues .display).map QueuedPost.event ++ d.events).filterMap PostedEvent.deleted

-- Whose requests the server accepts after a request.
def after (known : Address → Prop) (request : Request Interface) (proxy : Address) : Prop :=
  known proxy ∧ ¬(request.destructor = true ∧ proxy = request.proxy) ∨ ∃ n ∈ request.newIds, n.proxy = proxy

def Orderly (known : Address → Prop) : List (Request Interface) → Prop
  | [] => True
  | request :: requests => known request.proxy ∧ Orderly (after known request) requests

def Backed (has : ObjectId → Address → Prop) : List PostedEvent → Prop
  | [] => True
  | event :: events => (∀ id proxy, event = .other id proxy →
      has id proxy ∨ (id, proxy) ∈ events.filterMap PostedEvent.deleted) ∧ Backed has events

theorem after_mono {S : Address → Prop} (hm : ∀ k, ¬S k → known k → known' k) (k : Address) (hk : ¬S k)
    (h : after known request k) : after known' request k :=
  h.imp_left (And.imp_left (hm k hk))

theorem Orderly.mono {S : Address → Prop} (h : Orderly known requests) (hm : ∀ k, ¬S k → known k → known' k)
    (hr : ∀ r ∈ requests, ¬S r.proxy) : Orderly known' requests := by
  induction requests generalizing known known'
  case nil => trivial
  case cons request requests ih =>
    have ⟨hk, hr⟩ := List.forall_mem_cons.mp hr
    exact ⟨hm _ hk h.1, ih h.2 (after_mono hm) hr⟩

theorem foldl_after_mono {S : Address → Prop} {k : Address} (hm : ∀ k, ¬S k → known k → known' k) (hk : ¬S k)
    (h : requests.foldl after known k) : requests.foldl after known' k := by
  induction requests generalizing known known'
  case nil => exact hm k hk h
  case cons request requests ih => exact ih (after_mono hm) h

theorem Orderly.append (h : Orderly known requests) (hk : requests.foldl after known request.proxy) :
    Orderly known (requests ++ [request]) := by
  induction requests generalizing known
  case nil => exact ⟨hk, trivial⟩
  case cons first requests ih => exact ⟨h.1, ih h.2 hk⟩

theorem Backed.append (h : Backed has events) (he : ∀ id k, event = .other id k → has' id k)
    (hm : ∀ id k, has id k → has' id k ∨ event.deleted = some (id, k)) : Backed has' (events ++ [event]) := by
  induction events
  case nil => exact ⟨fun id k heq => .inl (he id k heq), trivial⟩
  case cons first events ih =>
    refine ⟨fun id k heq => ?_, ih h.2⟩
    cases h.1 id k heq with
    | inl hh =>
      refine (hm id k hh).imp_right fun hd => ?_
      exact List.mem_filterMap.mpr ⟨event, List.mem_append_right _ (List.mem_singleton_self _), hd⟩
    | inr hmem =>
      have ⟨e, he, hd⟩ := List.mem_filterMap.mp hmem
      exact .inr (List.mem_filterMap.mpr ⟨e, List.mem_append_left _ he, hd⟩)

theorem Backed.mono (h : Backed has events) (hm : ∀ id k, has id k → has' id k) : Backed has' events := by
  induction events
  case nil => trivial
  case cons first events ih => exact ⟨fun id k heq => (h.1 id k heq).imp_left (hm id k), ih h.2⟩

end Libwayland.Peers

namespace Libwayland

-- How an event is queued: the ids that it deletes can only be found in the queue of the display.
def QueuedPost.Correct (queue : EventQueue) (queued : QueuedPost) : Prop :=
  (queued.event.deleted.isSome → queue = .display ∧ queued.proxy = Client.displayAddress) ∧
  (queued.proxy = Client.displayAddress ∨ queued.event.proxy = queued.proxy)

def Server.HasId {Interface : Type} (s : Server Interface) (id : ObjectId) (proxy : Address) : Prop :=
  ∃ n, s.Has n ∧ n.id = id ∧ n.proxy = proxy

namespace Peers

variable {Interface : Type} {protocol : Protocol Interface} {methods : Interface → List Method}
variable {d d' : Peers Interface} {request : Request Interface} {requests : List (Request Interface)}
variable {event : PostedEvent} {events : List PostedEvent}
variable {a : ℕ} {p : Proxy Interface} {o' : Objects Interface}
variable {method : Method} {newIds : List (NewId Interface)}

-- A request is for an object that the client sends requests to, and is one that its interface has.
def Requested (methods : Interface → List Method) (d : Peers Interface) (request : Request Interface) : Prop :=
  request.proxy ∉ d.silent ∧ ∃ p method, d.objects.proxyAt request.proxy = some p ∧ p.id = request.sender ∧
    (methods p.interface)[request.opcode]? = some method ∧ method.destructor = request.destructor

structure Inv (methods : Interface → List Method) (d : Peers Interface) : Prop where
  tracked    : d.objects.Tracked d.sent d.server d.gone d.deleted
  growing    : Objects.Growing d.objects d.sent d.server (d.lastError = true)
  accepted   : d.server.error = false
  display    : ∃ p, d.objects.Live Client.displayAddress p ∧ p.id = 1
  typed      : ∀ n, n ∈ d.sent ∨ d.server.Has n → ∃ p, d.objects.proxyAt n.proxy = some p ∧ p.interface = n.interface
  requests   : ∀ r ∈ d.requests, Requested methods d r
  orderly    : Orderly d.server.Knows d.requests
  known      : ∀ k ∈ d.given, k ∉ d.silent → k ∉ d.finished →
    d.lastError = true ∨ d.requests.foldl after d.server.Knows k
  backed     : Backed d.server.HasId d.events
  queued     : ∀ queue, ∀ queued ∈ d.queues queue, queued.Correct queue
  dispatched : ∀ queued ∈ d.dispatched, queued.event.proxy = queued.proxy

namespace Inv

theorem agrees (h : d.Inv methods) : d.Agrees where
  accepted := h.accepted
  reused := h.tracked.reused
  dispatched := h.dispatched

-- Only the objects of the client change.
theorem withObjects (h : d.Inv methods) (ht : o'.Tracked d.sent d.server d.gone d.deleted) (hk : d.objects.Keeps o')
    (hg : Objects.Growing o' d.sent d.server (d.lastError = true))
    (hd : ∃ p, o'.Live Client.displayAddress p ∧ p.id = 1) : Inv methods { d with objects := o' } :=
  { h with
    tracked := ht
    growing := hg
    display := hd
    typed := fun n hn => by
      have ⟨p, hp, hi⟩ := h.typed n hn
      have ⟨p', hp', _, hi', _⟩ := hk.forth _ p hp
      exact ⟨p', hp', hi'.trans hi⟩
    requests := fun r hr => by
      have ⟨hs, p, method, hp, hid, hm, hd⟩ := h.requests r hr
      have ⟨p', hp', hid', hi', _⟩ := hk.forth _ p hp
      exact ⟨hs, p', method, hp', hid'.trans hid, hi' ▸ hm, hd⟩ }

theorem destroyProxy (h : d.Inv methods) (hl : d.objects.Live a p) (hne : a ≠ Client.displayAddress) :
    (d.destroyProxy protocol a p).Inv methods := by
  have ⟨_, ho⟩ := h.tracked.objects
  have hid := h.tracked.client hl.proxyAt
  have hd := ho.proxyDestroy_spec protocol hl hid
  have hdangles : ¬d.objects.Dangles a p := fun hd => hd.server hid
  have ⟨m, hgrows, hlength⟩ := h.growing
  have ⟨q, hq, hqid⟩ := h.display
  refine h.withObjects (h.tracked.destroy (ho.proxyDestroy hl hdangles) hl hd) (Objects.Tracked.keeps_destroyed hd hl)
    ⟨m, hgrows, hd.length ▸ hlength⟩ ⟨q, ⟨?_, hq.alive⟩, hqid⟩
  rw [hd.proxyAt, if_neg hne.symm, hq.proxyAt]

theorem setProxy {p' : Proxy Interface} (h : d.Inv methods) (hl : d.objects.Live a p) (hid : p'.id = p.id)
    (hinterface : p'.interface = p.interface) (halive : p'.destroyed = false) (hdeleted : p'.idDeleted = p.idDeleted) :
    Inv methods { d with objects := d.objects.setProxy a p' } := by
  have ht := h.tracked.setProxy hl hid hinterface halive (List.Sublist.refl _) (fun _ hmem => hmem)
    (fun _ _ _ hn _ => hn) (fun hd => h.tracked.idDeleted a p hl.proxyAt (hdeleted ▸ hd)) h.tracked.processed
  have ⟨q, hq, hqid⟩ := h.display
  have ⟨q', hq', hqid'⟩ := Objects.Tracked.live_setProxy hl halive hid hq
  exact h.withObjects ht (Objects.Tracked.keeps_setProxy hl hid hinterface) h.growing ⟨q', hq', hqid'.trans hqid⟩

-- A request is sent that creates objects, unless nothing is sent any more.
theorem sendRequest {opcode : ℕ} (silent : Bool) (h : d.Inv methods)
    (ht : o'.Tracked (d.sent ++ newIds) d.server d.gone d.deleted) (hout : d.objects.Outgoing o' newIds)
    (hg : Objects.Growing d.objects d.sent d.server False → Objects.Growing o' (d.sent ++ newIds) d.server False)
    (hl : d.objects.Live a p) (hgiven : a ∈ d.given) (hs : a ∉ d.silent) (hf : a ∉ d.finished)
    (hm : (methods p.interface)[opcode]? = some method) :
    ({ d with objects := o' }.sendRequest a p opcode method newIds silent).Inv methods := by
  have hnew (k : Address) (q : Proxy Interface) (hq : d.objects.proxyAt k = some q) : k ∉ newIds.map NewId.proxy :=
    fun hmem => by
      have ⟨n, hn, heq⟩ := List.mem_map.mp hmem
      cases (heq ▸ (hout.new n hn).1).symm.trans hq
  have hsilent (k : Address) (q : Proxy Interface) (hq : d.objects.proxyAt k = some q) (hk : k ∉ d.silent) :
      k ∉ if silent then newIds.map NewId.proxy ++ d.silent else d.silent := by
    split
    case isTrue => exact fun hmem => (List.mem_append.mp hmem).elim (hnew k q hq) hk
    case isFalse => exact hk
  have hlast {k : Address} (hk : k ∈ (newIds.map NewId.proxy).getLast?.toList) : ∃ n ∈ newIds, n.proxy = k := by
    have hk := List.mem_of_getLast? (Option.mem_toList.mp hk)
    exact List.mem_map.mp hk
  have hrequested (r : Request Interface) (hr : Requested methods d r) : Requested methods { d with
      objects := o', silent := if silent then newIds.map NewId.proxy ++ d.silent else d.silent } r := by
    have ⟨hs, q, method, hq, hrest⟩ := hr
    exact ⟨hsilent _ q hq hs, q, method, hout.old _ q hq, hrest⟩
  have hdisplay : ∃ p, o'.Live Client.displayAddress p ∧ p.id = 1 := by
    have ⟨q, hq, hqid⟩ := h.display
    exact ⟨q, ⟨hout.old _ q hq.proxyAt, hq.alive⟩, hqid⟩
  have htyped (n : NewId Interface) (hn : n ∈ d.sent ++ newIds ∨ d.server.Has n) :
      ∃ p, o'.proxyAt n.proxy = some p ∧ p.interface = n.interface := by
    have hold (hn : n ∈ d.sent ∨ d.server.Has n) : ∃ p, o'.proxyAt n.proxy = some p ∧ p.interface = n.interface := by
      have ⟨q, hq, hi⟩ := h.typed n hn
      exact ⟨q, hout.old _ q hq, hi⟩
    cases hn with
    | inr hn => exact hold (.inr hn)
    | inl hn =>
      cases List.mem_append.mp hn with
      | inl hn => exact hold (.inl hn)
      | inr hn => exact (hout.new n hn).2
  rw [Peers.sendRequest]
  by_cases he : d.lastError = true
  case pos =>
    dsimp only
    rw [if_pos he]
    have ⟨m, hgrows, _⟩ := h.growing
    exact { h with
      tracked := ht.drop
      growing := ⟨m, hgrows, .inl he⟩
      display := hdisplay
      typed := fun n hn => htyped n (hn.imp_left (List.mem_append_left _))
      requests := fun r hr => hrequested r (h.requests r hr)
      known := fun _ _ _ _ => .inl he }
  case neg =>
    dsimp only
    rw [if_neg he]
    have hsent : (d.requests ++ [(⟨p.id, opcode, newIds, a, method.destructor⟩ : Request Interface)]).flatMap
        Request.newIds = d.sent ++ newIds := by
      rw [List.flatMap_append, List.flatMap_singleton, sent]
    have hknown := (h.known a hgiven hs hf).resolve_left he
    constructor
    case tracked =>
      rw [sent, hsent]
      exact ht
    case growing =>
      rw [sent, hsent]
      have ⟨m, hgrows, hlength⟩ := h.growing
      have ⟨m', hgrows', hlength'⟩ := hg ⟨m, hgrows, .inr (hlength.resolve_left he)⟩
      exact ⟨m', hgrows', .inr (hlength'.resolve_left id)⟩
    case accepted => exact h.accepted
    case display => exact hdisplay
    case typed =>
      rw [sent, hsent]
      exact htyped
    case requests =>
      intro r hr
      cases List.mem_append.mp hr with
      | inl hr => exact hrequested r (h.requests r hr)
      | inr hr =>
        cases List.mem_singleton.mp hr
        exact hrequested _ ⟨hs, p, method, hl.proxyAt, rfl, hm, rfl⟩
    case orderly => exact h.orderly.append hknown
    case known =>
      intro k hk hks hkf
      refine .inr ?_
      rw [List.foldl_append, List.foldl_cons, List.foldl_nil]
      cases List.mem_append.mp hk with
      | inl hk => exact .inr (hlast hk)
      | inr hk =>
        refine .inl ⟨(h.known k hk (fun hmem => hks ?_) fun hmem => hkf ?_).resolve_left he, fun ⟨hd, heq⟩ => hkf ?_⟩
        · dsimp only
          split
          case isTrue => exact List.mem_append_right _ hmem
          case isFalse => exact hmem
        · dsimp only
          split
          case isTrue => exact List.mem_cons_of_mem _ hmem
          case isFalse => exact hmem
        · dsimp only at hd heq ⊢
          rw [if_pos hd, heq]
          exact List.mem_cons_self
    case backed => exact h.backed
    case queued => exact h.queued
    case dispatched => exact h.dispatched

theorem objects_sendRequest {opcode : ℕ} {silent : Bool} :
    (d.sendRequest a p opcode method newIds silent).objects = d.objects := by
  rw [Peers.sendRequest]
  dsimp only
  split <;> rfl

-- Nothing is sent for what was left over when there were too many objects.
theorem unsent (h : d.Inv methods) (ht : o'.Tracked d.sent d.server d.gone d.deleted)
    (hout : d.objects.Outgoing o' []) (hg : Objects.Growing o' d.sent d.server (d.lastError = true)) :
    Inv methods { d with objects := o' } := by
  have ⟨q, hq, hqid⟩ := h.display
  exact h.withObjects ht ⟨fun a p hp => ⟨p, hout.old a p hp, rfl, rfl, id⟩⟩ hg
    ⟨q, ⟨hout.old _ q hq.proxyAt, hq.alive⟩, hqid⟩

theorem marshal {opcode : ℕ} (interface : Option Interface) (silent destroy : Bool) (h : d.Inv methods)
    (hl : d.objects.Live a p) (hgiven : a ∈ d.given) (hs : a ∉ d.silent) (hf : a ∉ d.finished)
    (hm : (methods p.interface)[opcode]? = some method) (hne : destroy = true → a ≠ Client.displayAddress) :
    (d.marshal protocol a p opcode method interface silent destroy).Inv methods := by
  have finish {d₁ : Peers Interface} (h₁ : d₁.Inv methods) (hl₁ : d₁.objects.Live a p) :
      (if destroy then d₁.destroyProxy protocol a p else d₁).Inv methods := by
    split
    case isTrue hd => exact h₁.destroyProxy hl₁ (hne hd)
    case isFalse => exact h₁
  unfold Peers.marshal
  cases interface with
  | none =>
    have hnil : d.sent ++ [] = d.sent := List.append_nil _
    refine finish (h.sendRequest silent (hnil.symm ▸ h.tracked) ⟨fun _ _ hp => hp, nofun⟩ ?_ hl hgiven hs hf hm) ?_
    · exact hnil.symm ▸ id
    · rw [objects_sendRequest]
      exact hl
  | some interface =>
    have hc := h.tracked.createOutgoingProxies p.queue interface (argumentDetails method.signature)
    dsimp only
    generalize d.objects.createOutgoingProxies p.queue interface (argumentDetails method.signature) = result at hc ⊢
    have ⟨o', newIds⟩ := result
    rcases newIds with _ | _ | ⟨n, newIds⟩
    · have ⟨ht, hout, hmax⟩ := hc
      have ⟨m, hgrows, _⟩ := h.growing
      exact finish (h.unsent ht hout ⟨m, hgrows, .inr (.inl hmax)⟩) ⟨hout.old a p hl.proxyAt, hl.alive⟩
    · have ⟨ht, hout, hg⟩ := hc
      rw [List.append_nil] at ht hg
      have hg' : Objects.Growing o' d.sent d.server (d.lastError = true) := by
        have ⟨m, hgrows, hlength⟩ := h.growing
        cases hlength with
        | inl he => exact ⟨m, hgrows, .inl he⟩
        | inr hlength =>
          have ⟨m', hgrows', hlength'⟩ := hg ⟨m, hgrows, .inr hlength⟩
          exact ⟨m', hgrows', .inr (hlength'.resolve_left id)⟩
      exact finish (h.unsent ht hout hg') ⟨hout.old a p hl.proxyAt, hl.alive⟩
    · have ⟨ht, hout, hg⟩ := hc
      refine finish (h.sendRequest silent ht hout hg hl hgiven hs hf hm) ?_
      rw [objects_sendRequest]
      exact ⟨hout.old a p hl.proxyAt, hl.alive⟩

theorem handleRequest (h : d.Inv methods) (hr : d.requests = request :: requests) :
    Inv methods { d with requests, server := d.server.handleRequest methods request } := by
  have hsent : d.sent = request.newIds ++ requests.flatMap Request.newIds := by
    rw [sent, hr, List.flatMap_cons]
  have ht := h.tracked
  rw [hsent] at ht
  have ⟨⟨b, r, hb, hproxy, _⟩, horderly⟩ := hr ▸ h.orderly
  have ⟨_, p, method, hp, hid, hm, hdestructor⟩ := h.requests request (hr ▸ List.mem_cons_self)
  have hhas : d.server.Has r.newId := ⟨b, r, hb, rfl⟩
  -- The resource is that of the proxy that has sent the request.
  have ⟨q, hq, hqi⟩ := h.typed _ (.inr hhas)
  cases (hproxy ▸ hq : d.objects.proxyAt request.proxy = some q).symm.trans hp
  have ⟨⟨q', hq', hqid⟩, _⟩ := ht.served _ hhas
  cases hq.symm.trans hq'
  have ⟨m, hgrows, hlength⟩ := h.growing
  rw [hsent, List.map_append] at hgrows
  have ⟨k, hnew, hrest⟩ := hgrows.split
  have hids (n : NewId Interface) (hn : n ∈ request.newIds) : 0 < n.id.toNat ∧ n.id.toNat ≤ WL_MAP_MAX_OBJECTS := by
    have ⟨⟨q, hq, hid⟩, _⟩ := ht.created n (List.mem_append_left _ hn)
    exact hid ▸ ht.ids _ q hq
  have happart (n : NewId Interface) (hn : n ∈ request.newIds) (m : NewId Interface) (hm : d.server.Has m) :
      m.id ≠ n.id := by
    intro heq
    refine ht.apart m hm (List.mem_append_left _ ?_)
    exact heq ▸ List.mem_map_of_mem (List.mem_append_left _ hn)
  have hnodup : (request.newIds.map NewId.id).Nodup := by
    refine ht.nodup.sublist ?_
    rw [List.map_append, List.append_assoc]
    exact List.sublist_append_left ..
  have ⟨hhandles, hk⟩ := ht.server.handleRequest hb (hqid.symm.trans hid) hproxy (hqi ▸ hm) hnew hids happart hnodup
  have hknows (k : Address) (_ : ¬False) (hk : after d.server.Knows request k) :
      (d.server.handleRequest methods request).Knows k := hhandles.knows k (hdestructor ▸ hk)
  constructor
  case tracked => exact ht.handleRequest hhandles (hk ▸ hnew.le)
  case growing => exact ⟨m, hk ▸ hrest, hlength⟩
  case accepted => exact hhandles.error.trans h.accepted
  case display => exact h.display
  case typed =>
    intro n hn
    refine h.typed n ?_
    rw [hsent]
    cases hn with
    | inl hn => exact .inl (List.mem_append_right _ hn)
    | inr hn =>
      cases (hhandles.has n).mp hn with
      | inl hn => exact .inr hn
      | inr hn => exact .inl (List.mem_append_left _ hn)
  case requests => exact fun r hr' => h.requests r (hr ▸ List.mem_cons_of_mem _ hr')
  case orderly => exact horderly.mono hknows fun _ _ hf => hf
  case known =>
    intro k hk hks hkf
    have hknown := h.known k hk hks hkf
    rw [hr, List.foldl_cons] at hknown
    exact hknown.imp_right (foldl_after_mono hknows id)
  case backed =>
    refine h.backed.mono fun id k ⟨n, hn, he⟩ => ⟨n, (hhandles.has n).mpr (.inl hn), he⟩
  case queued => exact h.queued
  case dispatched => exact h.dispatched

theorem postEvent {r : Resource Interface} (h : d.Inv methods) (hr : d.server.resources a = some r) :
    Inv methods { d with events := d.events ++ [.other r.id r.proxy] } := by
  have hgone : gone { d with events := d.events ++ [.other r.id r.proxy] } = d.gone := by
    rw [gone, gone, ← List.append_assoc, List.filterMap_append]
    exact List.append_nil _
  exact { h with
    tracked := hgone.symm ▸ h.tracked
    backed := h.backed.append (fun id k heq => by cases heq; exact ⟨r.newId, ⟨a, r, hr, rfl⟩, rfl, rfl⟩)
      fun id k hid => .inl hid }

theorem destroyResource {r : Resource Interface} (h : d.Inv methods) (hr : d.server.resources a = some r)
    (hd : r.destructor = true ∨ r.proxy ∈ d.silent) :
    Inv methods { d with
      events := d.events ++ [.deleteId r.id r.proxy], server := d.server.resourceDestroy a r } := by
  have ⟨_, herror, hlength, hresources⟩ := h.tracked.server.resourceDestroy hr
  have hold (b : ℕ) (r' : Resource Interface) (hb : (d.server.resourceDestroy a r).resources b = some r') :
      d.server.resources b = some r' := ((hresources b r').mp hb).1
  -- Nothing is lost but what the client sends no requests to.
  have hknows (k : Address) (hk : k ∉ d.silent) (hkn : d.server.Knows k) : (d.server.resourceDestroy a r).Knows k := by
    have ⟨b, r', hb, hp, hf⟩ := hkn
    refine ⟨b, r', (hresources b r').mpr ⟨hb, fun heq => ?_⟩, hp, hf⟩
    cases heq
    cases hr.symm.trans hb
    cases hd with
    | inl hd => cases hf.symm.trans hd
    | inr hd => exact hk (hp ▸ hd)
  have hgone : gone { d with
      events := d.events ++ [.deleteId r.id r.proxy], server := d.server.resourceDestroy a r } =
      d.gone ++ [(r.id, r.proxy)] := by
    rw [gone, gone, ← List.append_assoc, List.filterMap_append]
    rfl
  constructor
  case tracked => exact hgone.symm ▸ h.tracked.resourceDestroy hr
  case growing =>
    have ⟨m, hgrows, hm⟩ := h.growing
    exact ⟨m, hlength.symm ▸ hgrows, hm⟩
  case accepted => exact herror.trans h.accepted
  case display => exact h.display
  case typed => exact fun n hn => h.typed n (hn.imp_right fun ⟨b, r', hb, he⟩ => ⟨b, r', hold b r' hb, he⟩)
  case requests => exact h.requests
  case orderly => exact h.orderly.mono hknows fun r hr => (h.requests r hr).1
  case known => exact fun k hk hks hkf => (h.known k hk hks hkf).imp_right (foldl_after_mono hknows hks)
  case backed =>
    refine h.backed.append nofun fun id k ⟨n, ⟨b, r', hb, hn⟩, hid, hk⟩ => ?_
    by_cases heq : b = a
    case pos =>
      cases heq
      cases hr.symm.trans hb
      refine .inr ?_
      rw [← hid, ← hk, ← hn]
      rfl
    case neg => exact .inl ⟨n, ⟨b, r', (hresources b r').mpr ⟨hb, heq⟩, hn⟩, hid, hk⟩
  case queued => exact h.queued
  case dispatched => exact h.dispatched

theorem queueEvent_cases (hs : d.queueEvent event = some d') :
    (d.objects.map.lookup event.sender = 0 ∨ d.objects.map.objectIsZombie event.sender) ∧ d' = d ∨
    ∃ queue, ¬d.objects.map.objectIsZombie event.sender ∧
      (d.objects.map.lookup event.sender = Client.displayAddress → queue = .display) ∧ d' = { d with
        queues := Function.update d.queues queue
          (d.queues queue ++ [{ proxy := d.objects.map.lookup event.sender, event }]) } := by
  unfold Peers.queueEvent at hs
  dsimp only at hs
  split at hs
  case isTrue hz => exact .inl ⟨hz, (Option.some.inj hs).symm⟩
  case isFalse hz =>
    split at hs
    case h_1 => cases hs
    case h_2 proxy _ =>
      have ⟨queue, hqueue, hs⟩ := Option.map_eq_some_iff.mp hs
      refine .inr ⟨queue, fun hzombie => hz (.inr hzombie), fun heq => ?_, hs.symm⟩
      rw [if_pos heq] at hqueue
      exact (Option.some.inj hqueue).symm

theorem discardEvent (h : d.Inv methods) (he : d.events = event :: events) (hd : event.deleted = none) :
    Inv methods { d with events } := by
  have hgone : gone { d with events } = d.gone := by
    simp [gone, he, List.filterMap_cons_none hd]
  exact { h with
    tracked := hgone.symm ▸ h.tracked
    backed := (he ▸ h.backed).2 }

theorem enqueueEvent {queue : EventQueue} (h : d.Inv methods) (he : d.events = event :: events)
    (hc : QueuedPost.Correct queue { proxy := a, event }) : Inv methods { d with
      events, queues := Function.update d.queues queue (d.queues queue ++ [{ proxy := a, event }]) } := by
  have hgone : gone { d with
      events, queues := Function.update d.queues queue (d.queues queue ++ [{ proxy := a, event }]) } = d.gone := by
    by_cases hq : queue = .display
    case pos =>
      subst hq
      simp [gone, he]
    case neg =>
      have hd : event.deleted = none := by
        by_contra hn
        exact hq (hc.1 (Option.isSome_iff_ne_none.mpr hn)).1
      simp [gone, he, Function.update_of_ne (Ne.symm hq), List.filterMap_cons_none hd]
  exact { h with
    tracked := hgone.symm ▸ h.tracked
    backed := (he ▸ h.backed).2
    queued := fun q queued hmem => by
      by_cases heq : q = queue
      case pos =>
        subst heq
        dsimp only at hmem
        rw [Function.update_self] at hmem
        cases List.mem_append.mp hmem with
        | inl hmem => exact h.queued q queued hmem
        | inr hmem => exact List.mem_singleton.mp hmem ▸ hc
      case neg =>
        dsimp only at hmem
        rw [Function.update_of_ne heq] at hmem
        exact h.queued q queued hmem }

-- What becomes of an event that is read: it is queued for the proxy that it was sent to, or discarded.
theorem queueEvent (h : d.Inv methods) (he : d.events = event :: events)
    (hs : Peers.queueEvent { d with events } event = some d') : d'.Inv methods := by
  have ⟨hhead, _⟩ := he ▸ h.backed
  have ⟨_, ho⟩ := h.tracked.objects
  have ⟨q, hq, hqid⟩ := h.display
  have hdisplay := ho.found hq (h.tracked.client hq.proxyAt)
  rw [hqid] at hdisplay
  have hcases := queueEvent_cases hs
  cases event with
  | deleteId id k =>
    rcases hcases with ⟨hz, _⟩ | ⟨queue, _, hqueue, hd⟩
    · dsimp only [PostedEvent.sender] at hz
      rw [hdisplay.1] at hz
      exact absurd (hz.resolve_left (by decide)) hdisplay.2
    · subst hd
      have hlookup : d.objects.map.lookup (PostedEvent.deleteId id k).sender = Client.displayAddress := hdisplay.1
      exact h.enqueueEvent he ⟨fun _ => ⟨hqueue hlookup, hlookup⟩, .inl hlookup⟩
  | other id k =>
    have ⟨hnames, hdeleted⟩ : d.objects.Names k id ∧ k ∉ d.deleted := by
      cases hhead id k rfl with
      | inl hhas =>
        have ⟨n, hn, hid, hk⟩ := hhas
        exact hid ▸ hk ▸ h.tracked.served n hn
      | inr hmem =>
        have hgone : (id, k) ∈ d.gone := by
          rw [gone, he, List.filterMap_append]
          exact List.mem_append_right _ hmem
        exact ⟨(h.tracked.removed _ hgone).1, (h.tracked.removed _ hgone).2.1⟩
    rcases hcases with ⟨_, hd⟩ | ⟨queue, hz, hqueue, hd⟩
    · subst hd
      exact h.discardEvent he rfl
    · subst hd
      have ⟨q, hq, hqid⟩ := (h.tracked.reaches hnames hdeleted).resolve_left hz
      have hlookup : d.objects.map.lookup (PostedEvent.other id k).sender = k :=
        hqid ▸ (ho.found hq (h.tracked.client hq.proxyAt)).1
      exact h.enqueueEvent he ⟨nofun, .inr hlookup.symm⟩

-- An event that has been taken out of its queue is still one of those that have been read.
theorem invokeEvent {queue : EventQueue} {queued : QueuedPost} {rest : List QueuedPost} (h : d.Inv methods)
    (hq : d.queues queue = queued :: rest) (hp : d.objects.proxyAt queued.proxy = some p) :
    (Peers.invokeEvent { d with queues := Function.update d.queues queue rest } p queued).Inv methods := by
  have hc := h.queued queue queued (hq ▸ List.mem_cons_self)
  have hqueued (q : EventQueue) (e : QueuedPost) (he : e ∈ Function.update d.queues queue rest q) : e.Correct q := by
    by_cases heq : q = queue
    case pos =>
      subst heq
      rw [Function.update_self] at he
      exact h.queued q e (hq ▸ List.mem_cons_of_mem _ he)
    case neg =>
      rw [Function.update_of_ne heq] at he
      exact h.queued q e he
  -- Only the display is told of the ids that are deleted.
  have hother (hne : ¬queued.proxy = Client.displayAddress) : gone { d with
      queues := Function.update d.queues queue rest } = d.gone := by
    have hd : queued.event.deleted = none := by
      by_contra hn
      exact hne (hc.1 (Option.isSome_iff_ne_none.mpr hn)).2
    by_cases heq : queue = .display
    case pos =>
      subst heq
      simp [gone, hq, List.filterMap_cons_none hd]
    case neg => simp [gone, Function.update_of_ne (Ne.symm heq)]
  have ⟨q, hl, _⟩ := h.display
  rw [Peers.invokeEvent]
  by_cases hdisplay : queued.proxy = Client.displayAddress
  case pos =>
    cases (hdisplay ▸ hp : d.objects.proxyAt Client.displayAddress = some p).symm.trans hl.proxyAt
    rw [if_neg (by rw [hl.alive]; decide), if_pos hdisplay]
    have hgone : gone { d with
        queues := Function.update d.queues queue rest, handlers := d.handlers ++ [queued.event] } = d.gone := by
      by_cases heq : queue = .display
      case pos =>
        subst heq
        simp [gone, hq]
      case neg =>
        have hd : queued.event.deleted = none := by
          by_contra hn
          exact heq (hc.1 (Option.isSome_iff_ne_none.mpr hn)).1
        simp [gone, Function.update_of_ne (Ne.symm heq), hd]
    exact { h with tracked := hgone.symm ▸ h.tracked, queued := hqueued }
  case neg =>
    have ht : d.objects.Tracked d.sent d.server (gone { d with
        queues := Function.update d.queues queue rest }) d.deleted := (hother hdisplay).symm ▸ h.tracked
    split
    case isTrue => exact { h with tracked := ht, queued := hqueued }
    case isFalse =>
      split
      case isTrue =>
        exact { h with
          tracked := ht
          queued := hqueued
          dispatched := fun e he => by
            cases List.mem_append.mp he with
            | inl he => exact h.dispatched e he
            | inr he => exact List.mem_singleton.mp he ▸ hc.2.resolve_left hdisplay }
      case isFalse => exact { h with tracked := ht, queued := hqueued }

theorem handleDisplayEvent {i : ℕ} (h : d.Inv methods) (hi : d.handlers[i]? = some event) :
    (Peers.handleDisplayEvent { d with handlers := d.handlers.eraseIdx i } event).Inv methods := by
  have ⟨hlt, hget⟩ := List.getElem?_eq_some_iff.mp hi
  have hperm : (event :: d.handlers.eraseIdx i).Perm d.handlers := hget ▸ List.getElem_cons_eraseIdx_perm hlt
  have hgone : d.gone.Perm ((event :: (d.handlers.eraseIdx i ++ (d.queues .display).map QueuedPost.event ++
      d.events)).filterMap PostedEvent.deleted) :=
    ((hperm.symm.append_right _).append_right _).filterMap _
  cases event with
  | deleteId id k =>
    have ⟨ht, hk, hlive, hlength⟩ := (h.tracked.perm hgone).handleDeleteId
    have ⟨m, hgrows, hm⟩ := h.growing
    have ⟨q, hq, hqid⟩ := h.display
    have ⟨q', hq', hqid'⟩ := hlive _ q hq
    exact { h with
      tracked := ht
      growing := ⟨m, hgrows, hlength ▸ hm⟩
      display := ⟨q', hq', hqid'.trans hqid⟩
      typed := fun n hn => by
        have ⟨p, hp, hi⟩ := h.typed n hn
        have ⟨p', hp', _, hi', _⟩ := hk.forth _ p hp
        exact ⟨p', hp', hi'.trans hi⟩
      requests := fun r hr => by
        have ⟨hs, p, method, hp, hid, hm, hd⟩ := h.requests r hr
        have ⟨p', hp', hid', hi', _⟩ := hk.forth _ p hp
        exact ⟨hs, p', method, hp', hid'.trans hid, hi' ▸ hm, hd⟩ }
  | other id k =>
    have ⟨m, hgrows, _⟩ := h.growing
    exact { h with
      tracked := h.tracked.perm hgone
      growing := ⟨m, hgrows, .inl rfl⟩
      known := fun _ _ _ _ => .inl rfl }

theorem live_of_proxyOf (hp : d.proxyOf a = some p) : d.objects.Live a p ∧ a ∈ d.given := by
  rw [proxyOf] at hp
  split at hp
  case isTrue hgiven =>
    have ⟨hp, hd⟩ := Option.filter_eq_some_iff.mp hp
    exact ⟨⟨hp, by simpa using hd⟩, hgiven⟩
  case isFalse => cases hp

theorem step {action : Action Interface} (h : d.Inv methods) (hs : d.step protocol methods action = some d') :
    d'.Inv methods := by
  cases action with
  | marshal address opcode interface silent destroy =>
    have ⟨p, hp, hs⟩ := Option.bind_eq_some_iff.mp hs
    have ⟨method, hm, hs⟩ := Option.bind_eq_some_iff.mp hs
    have ⟨hl, hgiven⟩ := live_of_proxyOf hp
    split at hs
    case isTrue => cases hs
    case isFalse hsent =>
      have ⟨hsilent, hfinished⟩ := not_or.mp hsent
      split at hs
      case isTrue => cases hs
      case isFalse =>
        split at hs
        case isTrue => cases hs
        case isFalse hne =>
          cases hs
          exact h.marshal interface silent destroy hl hgiven hsilent hfinished hm fun hd heq => hne ⟨hd, heq⟩
  | destroy address =>
    have ⟨p, hp, hs⟩ := Option.bind_eq_some_iff.mp hs
    split at hs
    case isTrue => cases hs
    case isFalse hne =>
      cases hs
      exact h.destroyProxy (live_of_proxyOf hp).1 hne
  | addListener address =>
    have ⟨p, hp, hs⟩ := Option.map_eq_some_iff.mp hs
    have ⟨hl, _⟩ := live_of_proxyOf hp
    exact hs ▸ h.setProxy hl rfl rfl hl.alive rfl
  | setQueue address queue =>
    have ⟨p, hp, hs⟩ := Option.map_eq_some_iff.mp hs
    have ⟨hl, _⟩ := live_of_proxyOf hp
    exact hs ▸ h.setProxy hl rfl rfl hl.alive rfl
  | fail =>
    cases hs
    have ⟨m, hgrows, _⟩ := h.growing
    exact { h with growing := ⟨m, hgrows, .inl rfl⟩, known := fun _ _ _ _ => .inl rfl }
  | readEvent =>
    rw [Peers.step] at hs
    split at hs
    case h_1 =>
      cases hs
      exact h
    case h_2 event events he =>
      split at hs
      case isTrue =>
        cases hs
        exact h
      case isFalse => exact h.queueEvent he hs
  | dispatchEvent queue =>
    rw [Peers.step] at hs
    split at hs
    case isTrue =>
      cases hs
      exact h
    case isFalse =>
      rw [Peers.dispatchEvent] at hs
      split at hs
      case h_1 =>
        cases hs
        exact h
      case h_2 queued rest hq =>
        have ⟨p, hp, hs⟩ := Option.map_eq_some_iff.mp hs
        exact hs ▸ h.invokeEvent hq hp
  | handle i =>
    have ⟨event, hi, hs⟩ := Option.map_eq_some_iff.mp hs
    exact hs ▸ h.handleDisplayEvent hi
  | handleRequest =>
    rw [Peers.step] at hs
    split at hs
    case h_1 =>
      cases hs
      exact h
    case h_2 request requests hr =>
      split at hs
      case isTrue =>
        cases hs
        exact h
      case isFalse =>
        cases hs
        exact h.handleRequest hr
  | postEvent address =>
    have ⟨r, hr, hs⟩ := Option.map_eq_some_iff.mp hs
    exact hs ▸ h.postEvent hr
  | destroyResource address =>
    have ⟨r, hr, hs⟩ := Option.bind_eq_some_iff.mp hs
    split at hs
    case isTrue => cases hs
    case isFalse =>
      split at hs
      case isTrue hd =>
        cases hs
        exact h.destroyResource hr hd
      case isFalse => cases hs

end Inv

section Connect

variable (protocol)

def displayProxy : Proxy Interface where
  id        := 1
  interface := protocol.display
  queue     := some .default

theorem objects_connect : (connect protocol).objects = {
    map       := { side := .client, clientEntries := [0, Client.displayAddress] }
    heap      := Function.update (fun _ => none) Client.displayAddress (some (.proxy (displayProxy protocol)))
    allocated := 1 } := by
  simp [connect, Client.connect, Objects.proxyCreate, WlMap.insertNew, WlMap.insertAt, WlMap.entries, WlMap.setEntries,
    ObjectId.side, ObjectId.index, WL_SERVER_ID_START, WL_MAP_MAX_OBJECTS, Objects.alloc, Objects.fresh, MapSide.base,
    mapEntry, Client.displayAddress, displayProxy]

theorem server_connect : (connect protocol).server = {
    map       := { side := .server, clientEntries := [0, Server.displayResource] }
    resources := Function.update (fun _ => none) Server.displayResource
      (some { id := 1, interface := protocol.display, proxy := Client.displayAddress })
    allocated := 1 } := by
  simp [connect, Server.connect, Server.resourceCreate, WlMap.insertAt, WlMap.entries, WlMap.setEntries,
    ObjectId.side, ObjectId.index, WL_SERVER_ID_START, WL_MAP_MAX_OBJECTS, Server.fresh, MapSide.base,
    mapEntry, Client.displayAddress, Server.displayResource]

theorem proxyAt_connect : (connect protocol).objects.proxyAt a = some p ↔
    a = Client.displayAddress ∧ p = displayProxy protocol := by
  rw [objects_connect, Objects.proxyAt_eq_some]
  dsimp only
  rw [Function.update_apply]
  grind

theorem resources_connect {r : Resource Interface} : (connect protocol).server.resources a = some r ↔
    a = Server.displayResource ∧ r = { id := 1, interface := protocol.display, proxy := Client.displayAddress } := by
  rw [server_connect]
  dsimp only
  rw [Function.update_apply]
  grind

theorem length_connect : (connect protocol).objects.map.clientEntries.length = 2 ∧
    (connect protocol).server.map.clientEntries.length = 2 := by
  rw [objects_connect, server_connect]
  exact ⟨rfl, rfl⟩

theorem displayId : 0 < UInt32.toNat 1 ∧ UInt32.toNat 1 ≤ WL_MAP_MAX_OBJECTS := by
  decide

theorem server_inv_connect : (connect protocol).server.Inv := by
  constructor
  case side => rw [server_connect]
  case entries =>
    intro i word hword
    have hresource := (resources_connect protocol).mpr ⟨rfl, rfl⟩
    rw [server_connect] at hword
    match i, hword with
    | 0, hword => exact .inl (Option.some.inj hword).symm
    | 1, hword => exact .inr ⟨_, Option.some.inj hword ▸ hresource, rfl⟩
  case resources =>
    intro a r hr
    have ⟨ha, hr⟩ := (resources_connect protocol).mp hr
    rw [server_connect, ha, hr]
    exact ⟨rfl, displayId.2, by decide, by decide, by simp [Server.fresh, Server.displayResource]⟩

theorem tracked_connect : (connect protocol).objects.Tracked [] (connect protocol).server [] [] := by
  constructor
  case objects =>
    have h : Client.Inv (Client.connect protocol) := Client.inv_connect
    exact h.objects
  case server => exact server_inv_connect protocol
  case ids =>
    intro a p hp
    rw [((proxyAt_connect protocol).mp hp).2]
    exact displayId
  case created => exact nofun
  case served =>
    intro n ⟨a, r, hr, hn⟩
    rw [← hn, ((resources_connect protocol).mp hr).2]
    exact ⟨⟨_, (proxyAt_connect protocol).mpr ⟨rfl, rfl⟩, rfl⟩, nofun⟩
  case removed => exact nofun
  case nodup => exact List.nodup_nil
  case apart => exact fun _ _ => nofun
  case reused =>
    intro a b p q hlt hp hq
    have ⟨ha, _⟩ := (proxyAt_connect protocol).mp hp
    have ⟨hb, _⟩ := (proxyAt_connect protocol).mp hq
    exact absurd (ha.trans hb.symm) hlt.ne
  case zombies =>
    intro a p hp hd
    rw [((proxyAt_connect protocol).mp hp).2] at hd
    cases hd
  case idDeleted =>
    intro a p hp hd
    rw [((proxyAt_connect protocol).mp hp).2] at hd
    cases hd
  case processed => exact nofun
  case free =>
    intro i ⟨_, _, word, hword, _⟩
    have ⟨hlt, _⟩ := List.getElem?_eq_some_iff.mp hword
    rw [(length_connect protocol).1] at hlt
    rw [(length_connect protocol).2]
    exact hlt

theorem inv_connect : (connect protocol).Inv methods := by
  have hproxy := (proxyAt_connect protocol).mpr ⟨rfl, rfl⟩
  have hresource := (resources_connect protocol).mpr ⟨rfl, rfl⟩
  constructor
  case tracked => exact tracked_connect protocol
  case growing =>
    have ⟨ho, hs⟩ := length_connect protocol
    exact ⟨2, by rw [hs]; exact .nil, .inr (.inr ho)⟩
  case accepted => rw [server_connect]
  case display => exact ⟨_, ⟨hproxy, rfl⟩, rfl⟩
  case typed =>
    rintro n (hn | ⟨a, r, hr, hn⟩)
    · cases hn
    · rw [← hn, ((resources_connect protocol).mp hr).2]
      exact ⟨_, hproxy, rfl⟩
  case requests => exact nofun
  case orderly => trivial
  case known =>
    intro k hk _ _
    exact .inr (List.mem_singleton.mp hk ▸ ⟨_, _, hresource, rfl, rfl⟩)
  case backed => trivial
  case queued => exact fun _ => nofun
  case dispatched => exact nofun

end Connect

theorem always_agrees (protocol : Protocol Interface) (methods : Interface → List Method)
    (actions : List (Action Interface)) :
    Machine.Always (step protocol methods) Agrees (connect protocol) actions :=
  Machine.Always.of_invariant actions (inv_connect protocol) Inv.agrees fun h hs => h.step hs

end Peers

end Libwayland
