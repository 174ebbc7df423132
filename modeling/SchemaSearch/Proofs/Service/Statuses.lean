import SchemaSearch.Proofs.Search.Causes
import SchemaSearch.Service.Api
import SchemaSearch.Service.Sample

/-!
# The status of a failed search

All resources are registered and all their aliases lead to fields, so the registry of the service is one that
builds.  A search of a resource that fails is then answered as the client's fault, whatever the client has
sent and by which method, unless the database does not take a search that was prepared.

Main statement: no search fails by the wiring, and each that fails is answered 400 unless it is the database
that fails (`failed_search_status`).
-/

namespace SchemaSearch

open Schema

namespace Service

/-- The entities of the service make a registry: nothing is wrong with them. -/
theorem registry_ok : Registry.build (resources.map Resource.entity) = .ok registry :=
  Registry.build_eq_ok_iff.mpr ⟨rfl, by decide⟩

/-- Whether it is the database that fails. -/
def ServiceError.isDatabase : ServiceError → Bool
  | .database _ => true
  | _ => false

/-- An error is answered 400, unless it is one of the database. -/
def BlamesClient (error : ServiceError) : Prop := error.isDatabase = false → error.status = 400

/-- What a client has sent wrongly is answered 400. -/
theorem blamesClient_search {error : SearchError} (h : error.isWiring = false) :
    BlamesClient (.search error) := by
  intro _
  rw [ServiceError.status, SearchError.isClientError_of_isWiring h]
  rfl

theorem get?_resource : ∀ r ∈ resources, registry.get? r.table.name = some r.entity := by decide

/-! ## Searches of a resource -/

section Searches

variable {r : Resource} (hr : r ∈ resources) (state : State)

include hr

theorem failsOnly_search (p : Params) : FailsOnly BlamesClient (search state r p) := by
  have hprepared := Prepared.failsByClient registry_ok (get?_resource r hr) state.config p
  unfold search
  split
  · rename_i error herror
    exact .error (blamesClient_search (hprepared error herror))
  · split
    · exact .ok _
    · exact .error fun hdatabase => by cases hdatabase

theorem failsOnly_searchByBody (q : Request) : FailsOnly BlamesClient (searchByBody state r q) := by
  have hjson : FailsOnly BlamesClient q.json := by
    unfold Request.json
    split
    · exact .error fun _ => rfl
    · split
      · exact .error fun _ => rfl
      · split
        · exact .ok _
        · exact .error fun _ => rfl
  refine hjson.bind fun body _ => ?_
  split
  · exact failsOnly_search hr state _
  · rename_i error herror
    refine .error (blamesClient_search ?_)
    unfold Params.ofJson at herror
    split at herror
    · cases herror
    · cases herror
      rfl

end Searches

/-- What a search of a resource comes to: by the body of a `POST`, by the query of any other request. -/
def searchOutcome (state : State) (r : Resource) (q : Request) : Except ServiceError Json :=
  if q.method = "POST" then searchByBody state r q
  else search state r (.ofQuery (Target.ofUri q.uri).query)

/-- A path that names a search names one of a resource. -/
theorem mem_resources_of_route {path : List Char} {r : Resource} (h : Route.ofPath path = some (.search r)) :
    r ∈ resources := by
  have hsegments : ∀ plural segment, Route.ofSegments plural segment = some (.search r) → r ∈ resources := by
    intro plural segment hroute
    obtain ⟨found, hfound, hroute⟩ := Option.bind_eq_some_iff.mp hroute
    split at hroute
    · cases hroute
    · split at hroute
      · cases hroute
        exact List.mem_of_find?_eq_some hfound
      · cases hroute
  unfold Route.ofPath at h
  split at h
  · cases h
  · split at h
    · cases h
    · split at h
      · cases h
      · split at h
        · split at h
          · exact hsegments _ _ h
          · cases h
        · cases h

theorem status_answer {state : State} {q : Request} {r : Resource}
    (hroute : Route.ofPath (Target.ofUri q.uri).path = some (.search r))
    (hmethod : q.method ∈ ["GET", "HEAD", "POST"]) :
    (answer state q).status = (Response.ofResult (searchOutcome state r q)).status := by
  unfold answer searchOutcome
  simp only [hroute]
  simp only [List.mem_cons, List.not_mem_nil, or_false] at hmethod
  rcases hmethod with hget | hhead | hpost
  · rw [hget]
    rfl
  · rw [hhead]
    rfl
  · rw [hpost]
    rfl

end Service

open Service

/-- In a registry that was built, no search of a registered root fails by the wiring, neither by itself nor
inside of an operator search; and a search of a resource of the service that fails is answered 400, unless
the database fails. -/
theorem failed_search_status :
    (∀ (entities : List Entity) (r : Registry) (root : String) (e : Entity) (c : SearchConfig) (p : Params)
        (error : SearchError), Registry.build entities = .ok r → r.get? root = some e →
        Prepared.ofParams r c root p = .error error → error.isWiring = false)
      ∧ ∀ (state : State) (q : Request) (r : Resource),
        Route.ofPath (Target.ofUri q.uri).path = some (.search r) → q.method ∈ ["GET", "HEAD", "POST"] →
        (answer state q).status = (Response.ofResult (searchOutcome state r q)).status
          ∧ ∀ error, searchOutcome state r q = .error error → error.isDatabase = false →
            (answer state q).status = 400 := by
  constructor
  · intro entities r root e c p error hbuild hroot herror
    exact Prepared.failsByClient hbuild hroot c p error herror
  · intro state q r hroute hmethod
    have hstatus := @status_answer state q r hroute hmethod
    refine ⟨hstatus, fun error herror hdatabase => ?_⟩
    have hr := mem_resources_of_route hroute
    have hblames : FailsOnly BlamesClient (searchOutcome state r q) := by
      unfold searchOutcome
      split
      · exact failsOnly_searchByBody hr state q
      · exact failsOnly_search hr state _
    rw [hstatus, herror]
    exact hblames error herror hdatabase

/-- A color that questions do not have, asked for inside of an operator search; and in a query string. -/
theorem failed_search_status_sample :
    SearchError.isWiring (.wrapped "Cannot resolve keyword 'color' into field on questions"
        (.unknownField "questions" "color")) = false
      ∧ (answer ⟨sampleDatabase, .standard, ""⟩
        ⟨"GET", "/api/v1/questions/search?color=red", "", none⟩).status = 400 := by
  constructor
  · exact failed_search_status.1 (resources.map Resource.entity) registry "questions" questions.entity
      .standard ⟨[("operator", [.text "AND"]), ("_AND", [.object [("color", .text "red")]])]⟩ _ registry_ok
      rfl rfl
  · exact (failed_search_status.2 _ _ questions rfl (by decide)).2
      (.search (.unknownField "questions" "color")) rfl rfl

end SchemaSearch
