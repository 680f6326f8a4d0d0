import Bindery.Operation.Analysis
import Bindery.Proofs.Resolution.Calls

/-!
# The reading of operations makes requests

Operations are read by requests to the resolver only.  So the findings after
they are read can be reached by requests, whatever the document looks like and
however many operations are left out.  And every schema of an operation that was
read has its targets registered, because each of its schemas was read by a
request, and what is registered stays registered.

The union of responses is sorted but holds no schema that the responses do not
declare.
-/

namespace Bindery

open Resolving Course List

/-! ## Responses -/

namespace Response

/-- Ranking keeps the responses and their order, and pairs each with the rank of its status. -/
theorem of_ranked {responses : List Response} {ranked : List (Rank × Response)}
    (returned : (responses.mapM fun response => do
      return (← rank response.status, response) : Except Fault _) = .ok ranked) :
    ranked.map Prod.snd = responses ∧ ∀ entry ∈ ranked, rank entry.2.status = .ok entry.1 := by
  have each := forall₂_of_mapM returned
  clear returned
  induction each with
  | nil => exact ⟨rfl, forall_mem_nil _⟩
  | cons here _ ih =>
    obtain ⟨value, ranks, same⟩ := ok_of_bind here
    cases same
    exact ⟨congrArg (_ :: ·) ih.1, forall_mem_cons.mpr ⟨ranks, ih.2⟩⟩

/-- The media types in the union of responses are those of the responses. -/
theorem media_of_union {responses : List Response} {members : List ResponseMember}
    (returned : union responses = .ok members) {member : ResponseMember}
    (inside : member ∈ members) {media : Media} (present : member.media = some media) :
    ∃ response ∈ responses, media ∈ response.content := by
  obtain ⟨ranked, ranks, same⟩ := ok_of_bind returned
  cases same
  obtain ⟨entry, sorted, inside⟩ := mem_flatMap.mp inside
  have declared : entry.2 ∈ responses := by
    rw [← (of_ranked ranks).1]
    exact mem_map_of_mem (mem_mergeSort.mp sorted)
  refine ⟨entry.2, declared, ?_⟩
  rw [members] at inside
  split at inside
  · obtain rfl := mem_singleton.mp inside
    cases present
  · obtain ⟨other, content, rfl⟩ := mem_map.mp inside
    cases present
    exact content

end Response

/-- The union of the responses of an operation holds no schema that the operation does not
declare. -/
def Operation.UnionDeclared (operation : Operation) : Prop :=
  ∀ member ∈ operation.union, ∀ media, member.media = some media →
    media.schema ∈ operation.schemas

/-! ## Requests of an operation -/

namespace Resolving

def AllRegistered (nodes : List Node) (findings : Findings) : Prop :=
  ∀ node ∈ nodes, Registered node findings

variable {sources : Sources}

theorem stable_allRegistered (nodes : List Node) :
    (requests sources).Stable (AllRegistered nodes) :=
  fun first second leads registered node member =>
    stable_registered node first second leads (registered node member)

theorem stable_trivial : (requests sources).Stable fun _ => True :=
  fun _ _ _ _ => trivial

end Resolving

namespace Analysis

variable {sources : Sources}

theorem followAll_requests (base : String) (objects : List Value) :
    (requests sources).Keeps (fun _ => True) (followAll sources base objects)
      fun _ _ => True := by
  induction objects with
  | nil => exact .pure fun _ _ => trivial
  | cons object rest ih =>
    refine .bind (follow_requests object base) fun target => ?_
    refine .bind ih fun others => ?_
    split <;> exact .pure fun _ _ => trivial

theorem parameterOf_schema {entries : Entries} {place : ParameterPlace} {name : Value}
    {schema : Node} {parameter : Parameter}
    (returned : parameterOf entries place name schema = .ok parameter) :
    parameter.schema = schema := by
  unfold parameterOf at returned
  split at returned <;> cases returned
  rfl

theorem readParameter_requests (parameter : Placed) (heading : String) :
    (requests sources).Keeps (fun _ => True) (readParameter sources parameter heading)
      fun result findings => AllRegistered (result.toList.map (·.schema)) findings := by
  unfold readParameter
  dsimp only
  split
  · exact .pure fun _ _ => by simp [AllRegistered]
  · rename_i place _
    have onward : (requests sources).Keeps (fun _ => True) (do
        let schema ← Resolving.read sources (parameterSchema parameter.1) parameter.2
          (heading ++ " parameter " ++ ((parameter.1.get? "name").getD (.str "")).text)
        return some (← Run.ofExcept (parameterOf parameter.1 place
          ((parameter.1.get? "name").getD (.str "")) schema)))
        fun result findings => AllRegistered (result.toList.map (·.schema)) findings := by
      refine .bind_stable (read_requests _ _ _) (fun _ => stable_registered _) fun schema => ?_
      refine .ofExcept_bind fun value returned => .pure fun findings _ registered => ?_
      simpa [AllRegistered, parameterOf_schema returned] using registered
    split
    · refine .ofExcept_bind fun ignored _ => ?_
      split
      · exact .pure fun _ _ => by simp [AllRegistered]
      · exact onward
    · exact onward

theorem readParameters_requests (parameters : List Placed) (heading : String) :
    (requests sources).Keeps (fun _ => True) (readParameters sources parameters heading)
      fun result findings => AllRegistered (result.map (·.schema)) findings := by
  have each : (requests sources).Keeps (fun _ => True)
      (parameters.mapM fun parameter => readParameter sources parameter heading)
      fun results findings =>
        ∀ result ∈ results, AllRegistered (result.toList.map (·.schema)) findings :=
    .mapM stable_trivial (fun _ => stable_allRegistered _) fun parameter _ =>
      readParameter_requests parameter heading
  refine .bind each fun results => .pure fun findings registered node member => ?_
  obtain ⟨parameter, inside, rfl⟩ := mem_map.mp member
  obtain ⟨result, present, same⟩ := mem_filterMap.mp inside
  obtain rfl : result = some parameter := same
  exact registered _ present _ (by simp)

theorem readContent_requests (content : Option Value) (base place : String) :
    (requests sources).Keeps (fun _ => True) (readContent sources content base place)
      fun result findings => AllRegistered (result.map (·.schema)) findings := by
  have each : (requests sources).Keeps (fun _ => True) (readContent sources content base place)
      fun result findings => ∀ media ∈ result, Registered media.schema findings := by
    refine .mapM stable_trivial (fun _ => stable_registered _) fun entry _ => ?_
    refine .bind_stable (read_requests _ _ _) (fun _ => stable_registered _) fun schema => ?_
    split
    · exact .pure fun _ _ registered => registered
    · exact .throw
  refine each.weaken (fun _ holds => holds) fun result findings registered => ?_
  simpa [AllRegistered] using registered

theorem readBody_requests (raw : Value) (base heading : String) :
    (requests sources).Keeps (fun _ => True) (readBody sources raw base heading)
      fun body findings =>
        AllRegistered (((body.map (·.content)).getD []).map (·.schema)) findings := by
  unfold readBody
  split
  · exact .pure fun _ _ => by simp [AllRegistered]
  · refine .bind (follow_requests raw base) fun target => ?_
    split
    · refine .bind_stable (readContent_requests _ _ _) (fun _ => stable_allRegistered _)
        fun content => ?_
      refine .ofExcept_bind fun description _ => ?_
      exact .pure fun _ _ registered => registered
    · exact .pure fun _ _ => by simp [AllRegistered]

def responseSchemas (responses : List Response) : List Node :=
  responses.flatMap fun response => response.content.map (·.schema)

theorem readResponses_requests (base heading : String) (entries : Entries) :
    (requests sources).Keeps (fun _ => True) (readResponses sources base heading entries)
      fun responses findings => AllRegistered (responseSchemas responses) findings := by
  induction entries with
  | nil => exact .pure fun _ _ => by simp [AllRegistered, responseSchemas]
  | cons entry rest ih =>
    unfold readResponses
    refine .bind (follow_requests entry.2 base) fun target => ?_
    split
    · refine .bind_stable (readContent_requests _ _ _) (fun _ => stable_allRegistered _)
        fun content => ?_
      refine .ofExcept_bind fun description _ => ?_
      refine .bind ih.always fun others => .pure fun findings later here => ?_
      exact forall_mem_append.mpr ⟨here, later⟩
    · exact ih

theorem operationParameters_requests (item operation : Entries) (base heading : String) :
    (requests sources).Keeps (fun _ => True)
      (operationParameters sources item operation base heading)
      fun result findings => AllRegistered (result.2.map (·.schema)) findings := by
  have listed (entries : Entries) :
      (requests sources).Keeps (fun _ => True) (do
        let items ← Run.ofExcept (Value.itemsOrNone (entries.present? "parameters"))
        followAll sources base items) fun _ _ => True :=
    .ofExcept_bind fun items _ => followAll_requests base items
  refine .bind (listed item) fun shared => ?_
  refine .bind (listed operation) fun own => ?_
  refine .bind (readParameters_requests shared heading) fun pathLevel => ?_
  refine .ofExcept_bind fun merged _ => ?_
  refine .bind ((readParameters_requests merged heading).always) fun parameters => ?_
  exact .pure fun _ registered => registered

/-! ## Operations -/

def course (sources : Sources) : Course Analyzing :=
  (requests sources).along Analyzing.findings

theorem start_resolving {α : Type} (step : Resolving α) (analyzing : Analyzing) :
    (resolving step).start analyzing =
      ((step.start analyzing.findings).1,
        { analyzing with findings := (step.start analyzing.findings).2 }) :=
  rfl

theorem resolving_keeps {α : Type} {step : Resolving α} {fact : α → Findings → Prop}
    (keeps : (requests sources).Keeps (fun _ => True) step fact) :
    (course sources).Keeps (fun _ => True) (resolving step) fun value analyzing =>
      fact value analyzing.findings := by
  intro analyzing sound _
  have landed := keeps analyzing.findings sound trivial
  rw [start_resolving]
  exact ⟨landed.ok, landed.resolution⟩

theorem takeId_keeps (base : String) :
    (course sources).Keeps (fun _ => True) (takeId base) fun _ _ => True := by
  intro analyzing _ _
  exact Run.lands_ok ⟨(course sources).refl analyzing, trivial⟩

theorem report_keeps (diagnostic : Diagnostic) :
    (course sources).Keeps (fun _ => True) (report diagnostic) fun _ _ => True :=
  resolving_keeps (report_requests diagnostic)

theorem stable_along {property : Findings → Prop} (stable : (requests sources).Stable property) :
    (course sources).Stable fun analyzing => property analyzing.findings :=
  fun first second leads holds => stable first.findings second.findings leads holds

/-- An operation is read: the targets of its schemas are registered, and the union of its
responses holds no other schemas. -/
def IsRead (operation : Operation) (findings : Findings) : Prop :=
  AllRegistered operation.schemas findings ∧ operation.UnionDeclared

theorem stable_isRead (operation : Operation) : (requests sources).Stable (IsRead operation) :=
  fun first second leads read =>
    ⟨stable_allRegistered _ first second leads read.1, read.2⟩

theorem mem_of_mem_groups {parameters : List Parameter} {parameter : Parameter}
    (member : parameter ∈ (ParameterGroups.ofList parameters).all) : parameter ∈ parameters := by
  simp only [ParameterGroups.all, ParameterGroups.ofList, List.mem_append,
    List.mem_filter] at member
  rcases member with ((query | path) | header) | cookie
  · exact query.1
  · exact path.1
  · exact header.1
  · exact cookie.1

theorem readOperation_keeps (path : Scalar) (method : Method) (item operation : Entries)
    (base : String) :
    (course sources).Keeps (fun _ => True) (readOperation sources path method item operation base)
      fun result analyzing => IsRead result analyzing.findings := by
  unfold readOperation
  refine .bind_stable (resolving_keeps (operationParameters_requests _ _ _ _))
    (fun _ => stable_along (stable_allRegistered _)) fun parameters => ?_
  refine .bind_stable (resolving_keeps (.ofExcept_bind fun entries _ => readResponses_requests _ _ entries))
    (fun _ => stable_along (stable_allRegistered _)) fun responses => ?_
  refine .ofExcept_bind fun security _ => ?_
  refine .ofExcept_bind fun idBase _ => ?_
  refine .bind (takeId_keeps _) fun id => ?_
  refine .ofExcept_bind fun tags _ => ?_
  refine .bind_stable (resolving_keeps (readBody_requests _ _ _))
    (fun _ => stable_along (stable_allRegistered _)) fun body => ?_
  refine .ofExcept_bind fun union returned => ?_
  refine .ofExcept_bind fun texts _ => ?_
  refine .pure fun analyzing _ ofBody ofResponses ofParameters => ⟨?_, ?_⟩
  · refine forall_mem_append.mpr ⟨forall_mem_append.mpr ⟨?_, ofBody⟩, ofResponses⟩
    intro node member
    obtain ⟨parameter, inside, rfl⟩ := mem_map.mp member
    exact ofParameters _ (mem_map_of_mem (mem_of_mem_groups inside))
  · intro member inside media present
    obtain ⟨response, declared, content⟩ := Response.media_of_union returned inside present
    refine mem_append_right _ (mem_flatMap.mpr ⟨response, declared, ?_⟩)
    exact mem_map_of_mem content

def AllRead (operations : List Operation) (findings : Findings) : Prop :=
  ∀ operation ∈ operations, IsRead operation findings

theorem stable_allRead (operations : List Operation) :
    (requests sources).Stable (AllRead operations) :=
  fun first second leads read operation member =>
    stable_isRead operation first second leads (read operation member)

theorem readPathItem_keeps (path : Scalar) (item : Entries) (base : String) (entries : Entries) :
    (course sources).Keeps (fun _ => True) (readPathItem sources path item base entries)
      fun operations analyzing => AllRead operations analyzing.findings := by
  fun_induction readPathItem sources path item base entries with
  | case1 => exact .pure fun _ _ => by simp [AllRead]
  | case2 key operation rest unknown ih => exact ih
  | case3 key operation rest method known ih =>
    refine .bind_stable (readOperation_keeps path method item operation base).attempt
      (fun result first second leads read value same =>
        stable_along (stable_isRead value) first second leads (read value same)) fun result => ?_
    split
    · refine .bind ih fun others => .pure fun analyzing later here => ?_
      exact forall_mem_cons.mpr ⟨here _ rfl, later⟩
    · refine .bind (report_keeps _) fun _ => ?_
      exact ih.weaken (fun _ holds => holds) fun _ _ later _ => later
  | case4 entry rest other ih => exact ih

theorem readPaths_keeps (entries : Entries) :
    (course sources).Keeps (fun _ => True) (readPaths sources entries)
      fun operations analyzing => AllRead operations analyzing.findings := by
  induction entries with
  | nil => exact .pure fun _ _ => by simp [AllRead]
  | cons entry rest ih =>
    unfold readPaths
    refine .bind (resolving_keeps (follow_requests entry.2 "")).attempt fun result => ?_
    split
    · exact .bind (report_keeps _).always fun _ => ih
    · refine .bind_stable (readPathItem_keeps _ _ _ _).always
        (fun _ => stable_along (stable_allRead _)) fun operations => ?_
      refine .bind ih fun others => .pure fun analyzing later here => ?_
      exact forall_mem_append.mpr ⟨here, later⟩
    · exact ih.always

/-- The operations of a document are read by requests. -/
theorem operations_requests :
    (requests sources).Keeps (fun _ => True) (operations sources) AllRead := by
  have keeps : (course sources).Keeps (fun _ => True) (do
      readPaths sources (← Run.ofExcept sources.root.paths.needEntries))
      fun operations analyzing => AllRead operations analyzing.findings :=
    .ofExcept_bind fun entries _ => readPaths_keeps entries
  intro findings sound _
  have landed := keeps { findings } sound trivial
  exact ⟨landed.ok, landed.resolution⟩

end Analysis

end Bindery
