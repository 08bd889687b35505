import RmwAxon.EndpointChange

namespace RmwAxon.CreateFailure

open Endpoints Registry Qos
open Session (World Opened Topic)

def SameTables (r r' : Records) : Prop :=
  ∃ handles, r' = { r with world := { r.world with handles := handles } }

def available (existing : Option Nat) (opened : Opened) : Bool := existing.isSome || opened.isOk

def Stranded (r : Records) : Creation → Prop
  | .service serviceId _ _ _ openedReq openedRes =>
    available (r.serviceRequestPubs serviceId) openedReq = true ∧
      available (r.serviceResponseSubs serviceId) openedRes = false
  | _ => False

theorem sameTables_refl (r : Records) : SameTables r r := ⟨r.world.handles, rfl⟩

theorem serviceHandle_cases (w : World) (existing : Option Nat) (opened : Opened) :
    (available existing opened = false ∧ ∃ e, serviceHandle w existing opened = .error e) ∨
    available existing opened = true ∧ ∃ (k : Nat) (handles : Nat → Session.Handle),
      serviceHandle w existing opened = .ok (k, { w with handles := handles }) := by
  cases existing with
  | some k =>
    exact .inr ⟨rfl, k, w.handles, by simp [serviceHandle, Session.chooseHandle, Option.filter_some]⟩
  | none =>
    cases opened with
    | error e => exact .inl ⟨rfl, e, rfl⟩
    | ok p => exact .inr ⟨rfl, p.1, _, rfl⟩

/-- A failed creation leaves the tables alone, unless it is a server's that got
as far as its response channel. -/
theorem failed_create_same_tables_iff (r : Records) (c : Creation) :
    ((create r c).1 = false → SameTables r (create r c).2) ↔ ¬ Stranded r c := by
  cases c with
  | publisher env topic qos opened =>
    refine iff_of_true (fun h => ?_) (fun h => h)
    simp only [create, outcome, Registry.createPublisher, Session.createPublisher] at h ⊢
    generalize Session.chooseHandle _ _ _ _ = chosen at h ⊢
    cases chosen with
    | error e => exact sameTables_refl r
    | ok p => simp [Except.isOk, Except.toBool] at h
  | subscription env allowed topic qos opened =>
    refine iff_of_true (fun h => ?_) (fun h => h)
    simp only [create, outcome, Registry.createSubscription, Session.createSubscription] at h ⊢
    generalize Session.chooseHandle _ _ _ _ = chosen at h ⊢
    cases allowed with
    | false => exact sameTables_refl r
    | true =>
      cases chosen with
      | error e => exact sameTables_refl r
      | ok p => simp [Except.isOk, Except.toBool] at h
  | client s name type qos openedReq openedRes =>
    -- A client enters nothing before it has both channels.
    refine iff_of_true (fun h => ?_) (fun h => h)
    simp only [create, outcome, createNamedClient] at h ⊢
    rcases serviceHandle_cases r.world (r.serviceRequestSubs s) openedReq with
      ⟨_, e, he⟩ | ⟨_, k, handles, hk⟩
    · simp only [he]
      exact sameTables_refl r
    rcases serviceHandle_cases { r.world with handles := handles } (r.serviceResponsePubs s) openedRes with
      ⟨_, e, he⟩ | ⟨_, k', handles', hk'⟩
    · simp only [hk, he]
      exact ⟨handles, rfl⟩
    · simp [hk, hk', Except.isOk, Except.toBool] at h
  | service s name type qos openedReq openedRes =>
    simp only [create, outcome, createNamedService, Stranded]
    rcases serviceHandle_cases r.world (r.serviceRequestPubs s) openedReq with
      ⟨hreq, e, he⟩ | ⟨hreq, k, handles, hk⟩
    · simp only [he]
      exact iff_of_true (fun _ => sameTables_refl r) (by simp [hreq])
    rcases serviceHandle_cases { r.world with handles := handles } (r.serviceResponseSubs s) openedRes with
      ⟨hres, e, he⟩ | ⟨hres, k', handles', hk'⟩
    · -- The server stays counted when its response channel is refused.
      simp only [hk, he]
      refine iff_of_false (fun hsame => ?_) (not_not.mpr ⟨hreq, hres⟩)
      obtain ⟨handles', heq⟩ := hsame rfl
      have hcount := congrFun (congrArg Records.serviceServerCounts heq) s
      cases hs : r.serviceServerCounts s <;> simp [hs, Session.increment] at hcount
    · simp only [hk, hk']
      exact iff_of_true (fun h => by cases h) (by simp [hres])

def emptyRecords : Records :=
  newRecords ⟨fun _ => RingBuffer.create RingHistory.twoSlots, fun _ => ⟨0, fun _ => none, fun _ => none⟩,
    Session.newTables 1 false⟩

theorem refused_response_channel_counts_server :
    ¬ ∀ r c, (create r c).1 = false → SameTables r (create r c).2 := by
  intro hall
  have hfail := hall emptyRecords
    (.service 7 "/add" "example_interfaces/srv/AddTwoInts" defaultSensor (.ok (0, 0)) (.error "ENOSPC"))
    rfl
  obtain ⟨handles, heq⟩ := hfail
  have hcount := congrArg (fun r => r.serviceServerCounts 7) heq
  exact Option.some_ne_none 1 hcount

end RmwAxon.CreateFailure
