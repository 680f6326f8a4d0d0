import Bindery.Operation.Binding
import Bindery.Proofs.Operation.Analysis

/-!
# The slots of the responses

The responses of an operation are ranked by status, sorted and flattened into a
union, and the binding collects the members of the union in one slot for each
status.  The sort is stable, so responses of the same rank stay in the order of
the document.  Nothing is lost between the responses and the slots: as long as no
status is declared twice, the members of one response stand together and fill one
slot, with one variant for each media type.
-/

namespace Bindery

open List

variable {response : Response} {sorted : List Response}

namespace Response

/-! ## The order of the union -/

theorem Rank.le_trans (a b c : Rank) (first : a.le b) (second : b.le c) : a.le c := by
  simp only [le, Bool.or_eq_true, Bool.and_eq_true, decide_eq_true_eq, beq_iff_eq] at *
  omega

theorem Rank.le_total (a b : Rank) : (a.le b || b.le a) = true := by
  simp only [le, Bool.or_eq_true, Bool.and_eq_true, decide_eq_true_eq, beq_iff_eq]
  omega

/-- Whether a response has the given rank. -/
def hasRank (number : Rank) (response : Response) : Bool :=
  (rank response.status).toOption == some number

/-- The responses in the order of the union. -/
structure Ordered (responses sorted : List Response) : Prop where
  perm : sorted.Perm responses
  ascending : sorted.Pairwise fun first second => ∀ a b,
    hasRank a first → hasRank b second → a.le b
  stable : ∀ number, sorted.filter (hasRank number) = responses.filter (hasRank number)

/-- The union is made of the members of the responses, sorted by rank. -/
theorem exists_ordered {responses : List Response} {members : List ResponseMember}
    (returned : union responses = .ok members) :
    ∃ sorted, Ordered responses sorted ∧ members = sorted.flatMap Response.members := by
  obtain ⟨ranked, ranks, same⟩ := ok_of_bind returned
  cases same
  obtain ⟨kept, each⟩ := of_ranked ranks
  let le (a b : Rank × Response) : Bool := a.1.le b.1
  have ofRank : ∀ entry ∈ ranked, ∀ number, hasRank number entry.2 ↔ entry.1 = number := by
    intro entry member number
    simp [hasRank, each entry member, Except.toOption]
  have perm : (ranked.mergeSort le).Perm ranked := mergeSort_perm ranked le
  refine ⟨(ranked.mergeSort le).map Prod.snd, ⟨?_, ?_, fun number => ?_⟩, ?_⟩
  · simpa only [kept] using perm.map Prod.snd
  · have sorted := @pairwise_mergeSort _ le (fun a b c => Rank.le_trans a.1 b.1 c.1)
      (fun a b => Rank.le_total a.1 b.1) ranked
    rw [pairwise_map]
    refine sorted.imp_of_mem fun {first second} here there below a b hasA hasB => ?_
    rw [ofRank first (perm.mem_iff.mp here)] at hasA
    rw [ofRank second (perm.mem_iff.mp there)] at hasB
    exact hasA ▸ hasB ▸ below
  · -- Entries of one rank are ascending as they stand, so the sort keeps them in order.
    let same : Rank × Response → Bool := hasRank number ∘ Prod.snd
    have inside : (ranked.filter same).Sublist (ranked.mergeSort le) := by
      refine sublist_mergeSort (fun a b c => Rank.le_trans a.1 b.1 c.1)
        (fun a b => Rank.le_total a.1 b.1) ?_ filter_sublist
      refine pairwise_of_forall_mem_list fun first here second there => ?_
      obtain ⟨here, firstRank⟩ := mem_filter.mp here
      obtain ⟨there, secondRank⟩ := mem_filter.mp there
      have equal : first.1 = second.1 :=
        ((ofRank first here number).mp firstRank).trans
          ((ofRank second there number).mp secondRank).symm
      simp [le, Rank.le, equal]
    have filtered := inside.filter same
    simp only [filter_filter, Bool.and_self] at filtered
    have equal := filtered.eq_of_length (perm.filter same).length_eq.symm
    rw [← kept, filter_map, filter_map]
    exact congrArg (map Prod.snd) equal.symm
  · rw [flatMap_map]

/-! ## The members of a status -/

/-- What the union holds of a response: one member without media, or one for each media type. -/
theorem members_eq (response : Response) :
    response.members = if response.content = [] then [⟨response.status, none⟩]
      else response.content.map fun media => ⟨response.status, some media⟩ := by
  simp [members]

theorem status_of_mem_members {member : ResponseMember} (inside : member ∈ response.members) :
    member.status = response.status := by
  rw [members_eq] at inside
  split at inside
  · rw [mem_singleton.mp inside]
  · obtain ⟨media, -, rfl⟩ := mem_map.mp inside
    rfl

theorem members_ne_nil (response : Response) : response.members ≠ [] := by
  rw [members_eq]
  split <;> simp [*]

/-- Where no status is declared twice, the members of a status are those of its response. -/
theorem filter_members (distinct : (sorted.map (·.status)).Nodup) (declared : response ∈ sorted) :
    (sorted.flatMap members).filter (·.status == response.status) = response.members := by
  have others : ∀ rest : List Response, response.status ∉ rest.map (·.status) →
      (rest.flatMap members).filter (·.status == response.status) = [] := by
    intro rest absent
    refine filter_eq_nil_iff.mpr fun member inside same => absent ?_
    obtain ⟨other, present, inside⟩ := mem_flatMap.mp inside
    rw [← eq_of_beq same, status_of_mem_members inside]
    exact mem_map_of_mem present
  obtain ⟨before, after, rfl⟩ := append_of_mem declared
  rw [map_append, map_cons, nodup_middle, nodup_cons, mem_append, not_or] at distinct
  rw [flatMap_append, flatMap_cons, filter_append, filter_append, others before distinct.1.1,
    others after distinct.1.2, nil_append, append_nil, filter_eq_self]
  intro member inside
  exact beq_iff_eq.mpr (status_of_mem_members inside)

/-- The status of a response and its media types, if it has any. -/
def outline (response : Response) : String × Option (List String) :=
  (response.status,
    if response.content = [] then none else some (response.content.map (·.contentType)))

end Response

/-! ## Slots -/

namespace Binding

open Code Response

section

variable {slots : List (String × Option (List Variant))} {status : String}
  (new : status ∉ slots.map Prod.fst)

include new

theorem addToSlot_new (variant : Option Variant) :
    addToSlot status variant slots = slots ++ [(status, variant.map fun variant => [variant])] := by
  induction slots with
  | nil => rfl
  | cons slot rest ih =>
    rw [map_cons, mem_cons, not_or] at new
    simp [addToSlot, Ne.symm new.1, ih new.2]

theorem addToSlot_last (variants : List Variant) (variant : Variant) :
    addToSlot status (some variant) (slots ++ [(status, some variants)]) =
      slots ++ [(status, some (variants ++ [variant]))] := by
  induction slots with
  | nil => simp [addToSlot]
  | cons slot rest ih =>
    rw [map_cons, mem_cons, not_or] at new
    simp [addToSlot, Ne.symm new.1, ih new.2]

end

/-- The status of a slot and the content types of its variants. -/
def slotOutline (slot : String × Option (List Variant)) : String × Option (List String) :=
  (slot.1, slot.2.map (·.map (·.contentType)))

variable {scope : Scope} {hint status : String} {rest : List ResponseMember}
  {slots : List (String × Option (List Variant))}
  {fact : List (String × Option (List Variant)) → Prop}

/-- Further media types of a status go to the last slot, if that is the slot of the status. -/
theorem bindMembers_content (new : status ∉ slots.map Prod.fst) (content : List Media)
    (variants : List Variant)
    (onward : ∀ added : List Variant, added.map (·.contentType) = content.map (·.contentType) →
      Run.Returns (bindMembers scope hint (slots ++ [(status, some (variants ++ added))]) rest)
        fact) :
    Run.Returns (bindMembers scope hint (slots ++ [(status, some variants)])
      (content.map (fun media => ⟨status, some media⟩) ++ rest)) fact := by
  induction content generalizing variants with
  | nil => simpa using onward [] rfl
  | cons media others ih =>
    rw [map_cons, cons_append, bindMembers]
    refine .after _ fun fragment => ?_
    rw [addToSlot_last new]
    refine ih _ fun added same => ?_
    simpa using onward (⟨media.contentType, fragment⟩ :: added) (by simp [same])

/-- The members of a response fill one slot, if its status has none yet. -/
theorem bindMembers_response (new : response.status ∉ slots.map Prod.fst)
    (onward : ∀ slot, slotOutline slot = response.outline →
      Run.Returns (bindMembers scope hint (slots ++ [slot]) rest) fact) :
    Run.Returns (bindMembers scope hint slots (response.members ++ rest)) fact := by
  rw [members_eq]
  split
  · next empty =>
    rw [singleton_append, bindMembers, addToSlot_new new]
    exact onward _ (by simp [slotOutline, outline, empty])
  · next nonempty =>
    obtain ⟨media, others, content⟩ := exists_cons_of_ne_nil nonempty
    rw [content, map_cons, cons_append, bindMembers]
    refine .after _ fun fragment => ?_
    rw [addToSlot_new new]
    refine bindMembers_content new others _ fun added same => ?_
    exact onward _ (by simp [slotOutline, outline, content, same])

/-- The members of the responses fill one slot for each response, in the same order. -/
theorem bindMembers_outline (distinct : (slots.map Prod.fst ++ sorted.map (·.status)).Nodup) :
    Run.Returns (bindMembers scope hint slots (sorted.flatMap Response.members)) fun bound =>
      bound.map slotOutline = slots.map slotOutline ++ sorted.map outline := by
  induction sorted generalizing slots with
  | nil => exact .pure (by simp)
  | cons response others ih =>
    have new : response.status ∉ slots.map Prod.fst := fun member =>
      (nodup_append.mp distinct).2.2 _ member _ mem_cons_self rfl
    rw [flatMap_cons]
    refine bindMembers_response new fun slot same => ?_
    have status : slot.1 = response.status := congrArg Prod.fst same
    have onward := @ih (slots ++ [slot]) (by simpa [status] using distinct)
    simpa [same] using onward

variable {operation : Operation} (distinct : (sorted.map (·.status)).Nodup)
  (union : operation.union = sorted.flatMap Response.members)

include distinct union

theorem bindResponses_outline : Run.Returns (bindResponses scope hint operation) fun bound =>
      bound.map (fun slot => slotOutline (slot.status, slot.variants)) = sorted.map outline := by
  rw [bindResponses, union]
  refine .bind (bindMembers_outline (by simpa using distinct)) fun slots same => .pure ?_
  rw [map_map]
  exact same

theorem ofOperation_outline (surface : Surface) (authHeaders : List String) :
    Run.Returns (ofOperation scope surface authHeaders operation) fun binding =>
      binding.responses.map (fun slot => slotOutline (slot.status, slot.variants)) =
        sorted.map outline := by
  unfold ofOperation
  refine .after _ fun query => .after _ fun path => .after _ fun header => .after _ fun body => ?_
  refine .bind (bindResponses_outline distinct union) fun responses same => ?_
  exact .after _ fun arguments => .pure same

end Binding

namespace Response

/-- The union covers the responses, and the slots of a binding cover the union: in both the
statuses are the declared ones in the order of their rank, each with its media types in the
order of the document. -/
theorem union_covers {responses : List Response} {members : List ResponseMember}
    (distinct : (responses.map (·.status)).Nodup) (returned : union responses = .ok members) :
    (∀ status, (∃ member ∈ members, member.status = status) ↔
      ∃ response ∈ responses, response.status = status) ∧
    (∀ response ∈ responses, members.filter (·.status == response.status) =
      if response.content = [] then [⟨response.status, none⟩]
      else response.content.map fun media => ⟨response.status, some media⟩) ∧
    ∃ sorted, Ordered responses sorted ∧ members = sorted.flatMap Response.members ∧
      ∀ (operation : Operation), operation.responses = responses → operation.union = members →
        ∀ scope surface authHeaders diagnostics binding later,
          (Binding.ofOperation scope surface authHeaders operation).start diagnostics =
            (.ok binding, later) →
          binding.responses.map (fun slot => (slot.status,
            slot.variants.map (·.map (·.contentType)))) =
          sorted.map fun response => (response.status,
            if response.content = [] then none
            else some (response.content.map (·.contentType))) := by
  obtain ⟨sorted, ordered, rfl⟩ := exists_ordered returned
  have statuses : (sorted.map (·.status)).Nodup :=
    (ordered.perm.map _).nodup_iff.mpr distinct
  refine ⟨fun status => ⟨?_, ?_⟩, fun response declared => ?_, sorted, ordered, rfl, ?_⟩
  · rintro ⟨member, inside, rfl⟩
    obtain ⟨response, present, inside⟩ := mem_flatMap.mp inside
    exact ⟨response, ordered.perm.mem_iff.mp present, (status_of_mem_members inside).symm⟩
  · rintro ⟨response, declared, rfl⟩
    obtain ⟨member, inside⟩ := exists_mem_of_ne_nil _ response.members_ne_nil
    exact ⟨member, mem_flatMap.mpr ⟨response, ordered.perm.mem_iff.mpr declared, inside⟩,
      status_of_mem_members inside⟩
  · rw [filter_members statuses (ordered.perm.mem_iff.mpr declared), members_eq]
  · intro operation _ union scope surface authHeaders diagnostics binding later ran
    exact Binding.ofOperation_outline statuses union surface authHeaders diagnostics binding later
      ran

/-- A status of each rank, in descending order. -/
def mixed : List Response :=
  [⟨"default", none, []⟩,
    ⟨"2XX", none, [⟨"text/plain", .any {}⟩, ⟨"text/html", .null {}⟩]⟩,
    ⟨"404", none, []⟩]

def mixedUnion : List ResponseMember :=
  [⟨"404", none⟩, ⟨"2XX", some ⟨"text/plain", .any {}⟩⟩, ⟨"2XX", some ⟨"text/html", .null {}⟩⟩,
    ⟨"default", none⟩]

def answering (responses : List Response) (union : List ResponseMember) : Operation :=
  { id := "o", method := .get, path := "/", summary := none, description := none
    deprecated := false, tags := [], pathLevel := [], parameters := {}, body := none
    responses, union, security := ⟨[], [], false⟩ }

theorem union_mixed : union mixed = .ok mixedUnion := by
  have ranked : (mixed.mapM fun response => do
        return (← rank response.status, response) : Except Fault _) =
      .ok [(⟨2, 0⟩, mixed[0]), (⟨1, 2⟩, mixed[1]), (⟨0, 404⟩, mixed[2])] := rfl
  -- The kernel does not evaluate the sort, but its equations do.
  rw [union, ranked]
  simp [bind, Except.bind, pure, Except.pure, mergeSort, MergeSort.Internal.splitInTwo, Rank.le,
    mixed, members, mixedUnion]

theorem union_covers_of_mixed :
    (mixed.map (·.status)).Nodup ∧ union mixed = .ok mixedUnion ∧
      ∃ sorted binding later, Ordered mixed sorted ∧
        (Binding.ofOperation {} {} [] (answering mixed mixedUnion)).start [] =
          (.ok binding, later) ∧
        binding.responses.map (fun slot => (slot.status,
          slot.variants.map (·.map (·.contentType)))) = sorted.map outline := by
  obtain ⟨-, -, sorted, ordered, -, slots⟩ := union_covers (by decide) union_mixed
  have ran := Run.start_returned (Binding.ofOperation {} {} [] (answering mixed mixedUnion)) []
    (by decide +kernel)
  exact ⟨by decide, union_mixed, sorted, _, _, ordered, ran, slots _ rfl rfl {} {} [] [] _ _ ran⟩

end Response

end Bindery
