import RmwAxon.AclEffect
import RmwAxon.HostChange

namespace RmwAxon.AclRoutes

open Qos Registry Acl AclSession Function
open Endpoints (Creation Route sender receiver)
open Host (existingPublisher existingSubscription)
open HostChange (existingPublisher_entry existingSubscription_entry marked_handles)
open HostInv (Entry)
open HostCreate (createPublisher_error createPublisher_ok createSubscription_error
  createSubscription_found marked)
open RingHistory (SameSlots)
open Session (World Topic Opened chooseHandle)
open SessionFrame (chooseHandle_frame createPublisher_frame)

def topicOf : Route → Nat
  | .topic t => t
  | .request serviceId => serviceRequestTopic serviceId
  | .response serviceId => serviceResponseTopic serviceId

def Leads (channelOf : Nat → Nat) (n : Nat) (w : World) (h t : Nat) : Prop :=
  h < n ∧ channelOf (w.handles h).segment = t

def Routed (channelOf : Nat → Nat) (n : Nat) (r : Records) : Prop :=
  ∀ route h, sender r route = some h ∨ receiver r route = some h →
    Leads channelOf n r.world h (topicOf route)

variable {channelOf : Nat → Nat} {n : Nat} {r : Records} {w w' : World}

/-- From n handles to m: old handles lead where they led, the tables stay
routed and nothing is written. -/
structure Settled (channelOf : Nat → Nat) (n m : Nat) (r r' : Records) : Prop where
  old : ∀ k t, Leads channelOf n r.world k t → Leads channelOf m r'.world k t
  routed : Routed channelOf m r'
  rings : ∀ g, SameSlots (r'.world.rings g) (r.world.rings g)

variable {m k t x : Nat} {r' : Records} {opened : Opened}

theorem Settled.trans {l : Nat} {r'' : Records} (h : Settled channelOf n m r r')
    (h' : Settled channelOf m l r' r'') : Settled channelOf n l r r'' :=
  ⟨fun k t hk => h'.old k t (h.old k t hk), h'.routed, fun g => (h'.rings g).trans (h.rings g)⟩

theorem Settled.stay (h : Routed channelOf n r) (hm : n ≤ m) : Settled channelOf n m r r :=
  ⟨fun _ _ hk => ⟨hk.1.trans_le hm, hk.2⟩,
    fun route k hk => ⟨(h route k hk).1.trans_le hm, (h route k hk).2⟩, fun _ => .refl _⟩

variable {existing : Option Nat}

theorem chooseHandle_leads {slotSize : Nat} (hc : chooseHandle w existing slotSize opened = .ok (k, w'))
    (hfit : fits channelOf n t opened = true)
    (hex : ∀ h, existing = some h → Leads channelOf n w h t) :
    Leads channelOf (n + 1) w' k t ∧ ∀ h u, Leads channelOf n w h u → Leads channelOf (n + 1) w' h u := by
  unfold chooseHandle at hc
  simp only at hc
  split at hc
  · rename_i h _ hr
    cases hc
    obtain ⟨hlt, hch⟩ := hex k (Option.filter_eq_some_iff.mp hr).1
    exact ⟨⟨by omega, hch⟩, fun h u hl => ⟨by have := hl.1; omega, hl.2⟩⟩
  · rename_i h segment _
    cases hc
    simp only [fits, Bool.and_eq_true, beq_iff_eq] at hfit
    obtain ⟨rfl, hch⟩ := hfit
    refine ⟨⟨Nat.lt_succ_self _, by simpa using hch⟩, fun h u hl => ⟨Nat.lt_succ_of_lt hl.1, ?_⟩⟩
    simpa [Nat.ne_of_lt hl.1] using hl.2
  · cases hc

variable {f : Nat → Option Nat}

theorem some_of_insert {h : Nat} (hf : update f t (some k) x = some h) : (x = t ∧ h = k) ∨ f x = some h := by
  rw [update_apply] at hf
  split_ifs at hf with hx
  · exact .inl ⟨hx, (Option.some.inj hf).symm⟩
  · exact .inr hf

theorem some_of_replace {h : Nat} {counted : Bool}
    (hf : (if counted then update f t (some k) else f) x = some h) :
    (x = t ∧ h = k) ∨ f x = some h := by
  split_ifs at hf
  · exact some_of_insert hf
  · exact .inr hf

theorem added_route (topic : Nat → Nat) (hk : Leads channelOf n w k (topic t))
    {g f' g' : Nat → Option Nat} {h : Nat} (hf : f' x = some h → (x = t ∧ h = k) ∨ f x = some h)
    (hg : g' x = some h → (x = t ∧ h = k) ∨ g x = some h) (hx : f' x = some h ∨ g' x = some h) :
    (f x = some h ∨ g x = some h) ∨ Leads channelOf n w h (topic x) := by
  rcases hx.imp hf hg with (⟨rfl, rfl⟩ | hx) | ⟨rfl, rfl⟩ | hx
  · exact .inr hk
  · exact .inl (.inl hx)
  · exact .inr hk
  · exact .inl (.inr hx)

theorem settled_of_old (h : Routed channelOf n r)
    (hrings : ∀ g, SameSlots (r'.world.rings g) (r.world.rings g))
    (hold : ∀ k t, Leads channelOf n r.world k t → Leads channelOf m r'.world k t)
    (hnew : ∀ route k, sender r' route = some k ∨ receiver r' route = some k →
      (sender r route = some k ∨ receiver r route = some k) ∨
        Leads channelOf m r'.world k (topicOf route)) : Settled channelOf n m r r' := by
  refine ⟨hold, fun route k hk => ?_, hrings⟩
  rcases hnew route k hk with hk | hk
  · exact hold k _ (h route k hk)
  · exact hk

theorem sameSlots_of_eq (hr : w'.rings = w.rings) (g : Nat) : SameSlots (w'.rings g) (w.rings g) :=
  hr ▸ .refl _

theorem entry_leads (h : Routed channelOf n r) (hx : Entry r.world.session t x) :
    Leads channelOf n r.world x t := h (.topic t) x hx

theorem createPublisher_settled (h : Routed channelOf n r) (env : Option Nat) (topic : Topic)
    (qos : QosProfile) (hfit : fits channelOf n topic.hash opened = true) :
    Settled channelOf n (n + 1) r (createPublisher r env topic qos opened).2 := by
  have hrings := (createPublisher_frame r.world env topic qos opened).1
  unfold createPublisher
  cases hc : chooseHandle r.world (existingPublisher r.world.session topic.hash)
      (Session.slotSizeFor env topic qos) opened with
  | error e =>
    rw [createPublisher_error hc]
    exact .stay h (Nat.le_succ n)
  | ok kw =>
    obtain ⟨k, w⟩ := kw
    obtain ⟨hk, hold⟩ := chooseHandle_leads hc hfit fun x hx =>
        entry_leads h (existingPublisher_entry hx)
    rw [createPublisher_ok hc, (chooseHandle_frame hc).2] at hrings ⊢
    have hleads (x t : Nat) (hx : Leads channelOf (n + 1) w x t) :
        Leads channelOf (n + 1) (marked w k (r.world.session.publishers topic.hash).isNone) x t := by
      unfold Leads
      rwa [marked_handles]
    refine settled_of_old h hrings (fun x t hx => hleads x t (hold x t hx)) fun route x hx => ?_
    cases route with
    | topic t => exact added_route id (hleads _ _ hk) some_of_insert some_of_replace hx
    | request s | response s => exact .inl hx

theorem createSubscription_settled (h : Routed channelOf n r) (env : Option Nat) (allowed : Bool)
    (topic : Topic) (qos : QosProfile) (hfit : fits channelOf n topic.hash opened = true) :
    Settled channelOf n (n + 1) r (createSubscription r env allowed topic qos opened).2 := by
  unfold createSubscription
  by_cases hallow : allowed = false
  · simp only [Session.createSubscription, if_pos hallow]
    exact .stay h (Nat.le_succ n)
  cases hc : chooseHandle r.world (existingSubscription r.world.session topic.hash)
      (Session.slotSizeFor env topic qos) opened with
  | error e =>
    rw [createSubscription_error hallow hc]
    exact .stay h (Nat.le_succ n)
  | ok kw =>
    obtain ⟨k, w⟩ := kw
    obtain ⟨hk, hold⟩ := chooseHandle_leads hc hfit fun x hx =>
      entry_leads h (existingSubscription_entry hx)
    obtain ⟨hr, hs⟩ := chooseHandle_frame hc
    rw [createSubscription_found hallow hc, hs]
    refine settled_of_old h (sameSlots_of_eq hr) hold fun route x hx => ?_
    cases route with
    | topic t => exact added_route id hk some_of_replace some_of_insert hx
    | request s | response s => exact .inl hx

theorem announce_settled (h : Settled channelOf n m r r') (serviceId published subscribed : Nat)
    (name type : String) (qos : QosProfile) :
    Settled channelOf n m r (announce r' serviceId published subscribed name type qos) := by
  refine ⟨h.old, fun route k hk => ?_, h.rings⟩
  cases route <;> exact h.routed _ k hk

theorem serviceHandle_settled (h : Routed channelOf n r)
    (hc : serviceHandle r.world existing opened = .ok (k, w))
    (hfit : fits channelOf n t opened = true)
    (hex : ∀ x, existing = some x → Leads channelOf n r.world x t) :
    Leads channelOf (n + 1) w k t ∧ Settled channelOf n (n + 1) r { r with world := w } := by
  obtain ⟨hk, hold⟩ := chooseHandle_leads hc hfit hex
  obtain ⟨hr, hs⟩ := chooseHandle_frame hc
  refine ⟨hk, settled_of_old h (sameSlots_of_eq hr) hold fun route x hx => .inl ?_⟩
  cases route with
  | topic t => simpa only [sender, receiver, hs] using hx
  | request s | response s => exact hx

theorem Settled.put (h : Settled channelOf n m r r') {r'' : Records} (hw : r''.world = r'.world)
    (hnew : ∀ route k, sender r'' route = some k ∨ receiver r'' route = some k →
      (sender r' route = some k ∨ receiver r' route = some k) ∨
        Leads channelOf m r'.world k (topicOf route)) : Settled channelOf n m r r'' := by
  refine ⟨by simpa only [hw] using h.old, fun route k hk => ?_, by simpa only [hw] using h.rings⟩
  rw [hw]
  rcases hnew route k hk with hk | hk
  · exact h.routed route k hk
  · exact hk

theorem create_settled (h : Routed channelOf n r) {c : Creation} (hc : placed channelOf n c = true) :
    Settled channelOf n (n + 2) r (Endpoints.create r c).2 := by
  cases c with
  | publisher env topic qos opened =>
    have hs := createPublisher_settled h env topic qos hc
    exact hs.trans (.stay hs.routed (Nat.le_succ _))
  | subscription env allowed topic qos opened =>
    have hs := createSubscription_settled h env allowed topic qos hc
    exact hs.trans (.stay hs.routed (Nat.le_succ _))
  | service s name type qos openedReq openedRes | client s name type qos openedReq openedRes =>
    obtain ⟨hreq, hres⟩ := Bool.and_eq_true_iff.mp hc
    simp only [Endpoints.create, Endpoints.outcome, createNamedService, createNamedClient]
    split
    · exact .stay h (Nat.le_add_right n 2)
    rename_i k w hk
    obtain ⟨hk, hw⟩ := serviceHandle_settled h hk hreq fun x hx =>
      h (.request s) x (by simp [sender, receiver, hx])
    split
    · have hstay := Settled.stay hw.routed (Nat.le_succ (n + 1))
      refine (hw.trans hstay).put rfl fun route x hx => ?_
      cases route with
      | topic t | response s' => exact .inl hx
      | request s' =>
        first
        | exact .inl hx
        | exact added_route serviceRequestTopic (hstay.old _ _ hk) .inr some_of_insert hx
    rename_i k' w' hk'
    obtain ⟨hk', hw'⟩ := serviceHandle_settled hw.routed hk' hres fun x hx =>
      hw.routed (.response s) x (by simp [sender, receiver, hx])
    apply announce_settled
    refine (hw.trans hw').put rfl fun route x hx => ?_
    have hk := hw'.old _ _ hk
    cases route with
    | topic t => exact .inl hx
    | request s' =>
      first
      | exact added_route serviceRequestTopic hk some_of_insert .inr hx
      | exact added_route serviceRequestTopic hk .inr some_of_insert hx
    | response s' =>
      first
      | exact added_route serviceResponseTopic hk' some_of_insert .inr hx
      | exact added_route serviceResponseTopic hk' .inr some_of_insert hx

theorem placed_gated (glob : Glob) (acl : AclEngine) (c : Creation) :
    placed channelOf n (gated glob acl c) = placed channelOf n c := by
  cases c <;> rfl

end RmwAxon.AclRoutes
