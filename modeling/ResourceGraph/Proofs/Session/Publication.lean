import ResourceGraph.Proofs.Session.History

/-!
# Publication

No stale result is published (`publish_iff_latest`). After any history of calls a result is stored
exactly if its pass is the latest one of its document; any other result leaves the registry as it
was. A pass that has become stale stays stale, and the results stored for one document follow the
order in which their passes were scheduled.
-/

set_option autoImplicit false

namespace ResourceGraph.Session

namespace Registry

variable {r : Registry} {document other : String} {diagnostics : List Diagnostic}

theorem lookup_filter_ne {entries : List (String × List Diagnostic)} (h : other ≠ document) :
    (entries.filter fun entry => entry.1 != document).lookup other = entries.lookup other := by
  induction entries with
  | nil => rfl
  | cons entry entries ih =>
    obtain ⟨d, ds⟩ := entry
    by_cases hd : d = document
    · have hne : (other == d) = false := by simpa [hd] using h
      rw [List.filter_cons_of_neg (by simp [hd]), List.lookup_cons, hne, ih]
    · rw [List.filter_cons_of_pos (by simpa using hd), List.lookup_cons, List.lookup_cons, ih]

theorem get?_set_self : (r.set document diagnostics).get? document = some diagnostics := by
  simp [get?, set]

theorem get?_set_other (h : other ≠ document) :
    (r.set document diagnostics).get? other = r.get? other := by
  have hne : (other == document) = false := by simpa using h
  rw [get?, set, List.lookup_cons, hne]
  exact lookup_filter_ne h

end Registry

open State

/-- The passes whose results the calls of a history store from a state on, in order. -/
def stored : State → List Event → List PassToken
  | _, [] => []
  | s, .publish token diagnostics :: rest =>
    if (s.registry.publish s.scheduler token diagnostics).1 then
      token :: stored (s.step (.publish token diagnostics)) rest
    else stored (s.step (.publish token diagnostics)) rest
  | s, e :: rest => stored (s.step e) rest

variable {delay : Nat} {history : List Event} {token : PassToken} {diagnostics : List Diagnostic}

/-- A result is stored exactly if its pass is the latest one of its document. -/
theorem publish_fst_iff :
    ((run delay history).registry.publish (run delay history).scheduler token diagnostics).1 =
      true ↔ Latest delay history token := by
  rw [← isCurrent_iff_latest, Registry.publish]
  split
  · simp_all
  · simp_all

theorem publish_of_latest (h : Latest delay history token) :
    (run delay history).registry.publish (run delay history).scheduler token diagnostics =
      (true, (run delay history).registry.set token.document diagnostics) := by
  rw [Registry.publish, if_pos (isCurrent_iff_latest.2 h)]

theorem publish_of_not_latest (h : ¬ Latest delay history token) :
    (run delay history).registry.publish (run delay history).scheduler token diagnostics =
      (false, (run delay history).registry) := by
  have hstale : ¬ (run delay history).scheduler.isCurrent token = true := by
    intro hcurrent
    exact h (isCurrent_iff_latest.1 hcurrent)
  rw [Registry.publish, if_neg hstale]

/-- A stored pass was the latest one when its result was stored. -/
theorem exists_latest_of_mem_stored {more : List Event}
    (h : token ∈ stored (run delay history) more) :
    ∃ between after, more = between ++ after ∧ Latest delay (history ++ between) token := by
  induction more generalizing history with
  | nil => simp [stored] at h
  | cons e more ih =>
    -- a pass that is stored later is the latest one at a later point of the same history
    have hlater : token ∈ stored (run delay (history ++ [e])) more →
        ∃ between after, e :: more = between ++ after ∧
          Latest delay (history ++ between) token := by
      intro h
      obtain ⟨between, after, rfl, hlatest⟩ := ih h
      exact ⟨e :: between, after, rfl, by simpa using hlatest⟩
    rw [run_concat] at hlater
    cases e with
    | publish token' diagnostics =>
      rw [stored] at h
      split at h
      · rename_i hstored
        rcases List.mem_cons.1 h with rfl | h
        · exact ⟨[], _, rfl, by simpa using publish_fst_iff.1 hstored⟩
        · exact hlater h
      · exact hlater h
    | schedule document now => exact hlater h
    | takeDue now => exact hlater h
    | cancel document => exact hlater h
    | set document diagnostics => exact hlater h
    | erase document => exact hlater h

/-- The results stored for one document follow the numbers of their passes. -/
theorem pairwise_stored (delay : Nat) (history more : List Event) :
    (stored (run delay history) more).Pairwise fun a b =>
      a.document = b.document → a.sequence ≤ b.sequence := by
  induction more generalizing history with
  | nil => exact List.Pairwise.nil
  | cons e more ih =>
    have hrest := ih (history ++ [e])
    rw [run_concat] at hrest
    cases e with
    | publish token diagnostics =>
      rw [stored]
      split
      · rename_i hstored
        refine List.Pairwise.cons ?_ hrest
        -- every result stored later is of a pass that was the latest one at its time
        intro later hlater hdocument
        rw [← run_concat] at hlater
        obtain ⟨between, after, -, hlatest⟩ := exists_latest_of_mem_stored hlater
        rw [List.append_assoc] at hlatest
        exact sequence_le_of_latest (publish_fst_iff.1 hstored) hlatest hdocument
      · exact hrest
    | schedule document now => exact hrest
    | takeDue now => exact hrest
    | cancel document => exact hrest
    | set document diagnostics => exact hrest
    | erase document => exact hrest

/-- **No stale result is published.** A result is stored exactly if its pass is the latest one of
its document, and else the registry stays as it is; a pass that is not the latest one any more never
is again; and the results stored for one document are those of passes scheduled one after another,
which are numbered by the schedule calls up to theirs. -/
theorem publish_iff_latest (delay : Nat) (history : List Event) :
    (∀ token diagnostics, Latest delay history token →
      ∃ r, (run delay history).registry.publish (run delay history).scheduler token diagnostics =
          (true, r) ∧ r.get? token.document = some diagnostics ∧
        ∀ other, other ≠ token.document → r.get? other = (run delay history).registry.get? other) ∧
    (∀ token diagnostics, ¬ Latest delay history token →
      (run delay history).registry.publish (run delay history).scheduler token diagnostics =
        (false, (run delay history).registry)) ∧
    (∀ token, Issued delay history token → ¬ Latest delay history token →
      ∀ more, (run delay (history ++ more)).scheduler.isCurrent token = false) ∧
    ((stored (start delay) history).Pairwise fun a b =>
      a.document = b.document → a.sequence ≤ b.sequence) ∧
    ∀ document now, (issue delay history document now).sequence =
      history.countP Event.isSchedule + 1 := by
  refine ⟨?_, ?_, ?_, pairwise_stored delay [] history, issue_sequence delay history⟩
  · intro token diagnostics h
    refine ⟨_, publish_of_latest h, Registry.get?_set_self, ?_⟩
    intro other hother
    exact Registry.get?_set_other hother
  · intro token diagnostics h
    exact publish_of_not_latest h
  · intro token hissued hstale more
    rw [Bool.eq_false_iff]
    intro hcurrent
    exact not_latest_append hissued hstale more (isCurrent_iff_latest.1 hcurrent)

/-- A document that is scheduled, closed, and scheduled anew. -/
def reopened : List Event := [.schedule "a" 0, .cancel "a", .takeDue 3, .schedule "a" 5]

theorem publish_iff_latest_reopened :
    (Latest 500 reopened ⟨"a", 2⟩ ∧ Issued 500 reopened ⟨"a", 1⟩ ∧
      ¬ Latest 500 reopened ⟨"a", 1⟩) ∧
    ((run 500 reopened).registry.publish (run 500 reopened).scheduler ⟨"a", 2⟩ []).1 = true ∧
    (run 500 reopened).registry.publish (run 500 reopened).scheduler ⟨"a", 1⟩ [] =
      (false, (run 500 reopened).registry) ∧
    ∀ more, (run 500 (reopened ++ more)).scheduler.isCurrent ⟨"a", 1⟩ = false := by
  have hfresh : Latest 500 reopened ⟨"a", 2⟩ := isCurrent_iff_latest.1 (by decide)
  have hissued : Issued 500 reopened ⟨"a", 1⟩ :=
    ⟨[], 0, [.cancel "a", .takeDue 3, .schedule "a" 5], rfl, rfl⟩
  have hstale : ¬ Latest 500 reopened ⟨"a", 1⟩ := by
    rw [← isCurrent_iff_latest]
    decide
  obtain ⟨hpublish, hkeep, hnever, -, -⟩ := publish_iff_latest 500 reopened
  obtain ⟨r, hr, -, -⟩ := hpublish ⟨"a", 2⟩ [] hfresh
  refine ⟨⟨hfresh, hissued, hstale⟩, ?_, hkeep ⟨"a", 1⟩ [] hstale, hnever ⟨"a", 1⟩ hissued hstale⟩
  rw [hr]

end ResourceGraph.Session
