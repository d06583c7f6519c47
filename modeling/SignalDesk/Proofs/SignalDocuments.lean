import SignalDesk.Codec.Signal
import SignalDesk.Proofs.JsonForm
import SignalDesk.Proofs.Thresholds

namespace SignalDesk

open Document Decoder

theorem Direction.ofDocument_toDocument (site : Site) (d : Direction) :
    Direction.ofDocument site d.toDocument.canonical = .ok d := by
  cases d <;> rfl

theorem RejectionReason.ofDocument_toDocument (site : Site) (r : RejectionReason) :
    RejectionReason.ofDocument site r.toDocument.canonical = .ok r := by
  cases r
  rfl

namespace Signal

/-- A list that is read as a signal stands for the record that gives its items their names. -/
theorem ofDocument_list {site : Site} {items : List Document} {s : Signal}
    (read : Signal.ofDocument site (.list items) = .ok s) :
    Signal.ofDocument site
      (.map (["strategy_name", "symbol", "direction", "confidence", "timestamp", "rationale"].zip items)) = .ok s := by
  obtain ⟨fields, given, rest⟩ := bind_eq_ok.mp read
  rw [orderedFields_list given] at rest
  exact rest

/-- The signals that can come about. -/
inductive Obtainable : Signal → Prop
  | make (strategy symbol : String) (direction : Direction) (confidence : Float) (time : Instant) :
    Obtainable (Signal.make strategy symbol direction confidence time)
  | hold (strategy symbol : String) (time : Instant) : Obtainable (Signal.hold strategy symbol time)
  | because {s : Signal} (key : String) (value : Document) : Obtainable s → Obtainable (s.because key value)
  | decoded {site : Site} {document : Document} {s : Signal} :
    Signal.ofDocument site document = .ok s → Obtainable s

/-- A confidence in the unit interval, and reasons that JSON keeps as they are. -/
structure Sound (s : Signal) : Prop where
  unit : isUnit s.confidence = true
  fixed : ∀ reason ∈ s.rationale.entries, reason.2.canonical = reason.2

theorem sortedMap_documents (fields : List (String × Document)) :
    sortedMap (fun value => .ok value.canonical) (map fields) = .ok (SortedMap.ofList (canonicalFields fields)) := by
  have each : fields.mapM (fun field => do
      return (field.1, ← (.ok field.2.canonical : Except Refusal Document))) =
        .ok (fields.map fun field => (field.1, field.2.canonical)) := List.mapM_pure
  rw [sortedMap_map, each, canonicalFields_eq_map]
  rfl

theorem Sound.because {s : Signal} (sound : s.Sound) (key : String) (value : Document) :
    (s.because key value).Sound where
  unit := sound.unit
  fixed := by
    rintro ⟨name, reason⟩ member
    rw [← SortedMap.get?_eq_some, Signal.because, SortedMap.get?_insert] at member
    split at member
    · cases member
      exact canonical_canonical value
    · exact sound.fixed (name, reason) (SortedMap.get?_eq_some.mp member)

theorem Sound.of_decoded {site : Site} {document : Document} {s : Signal}
    (decoded : Signal.ofDocument site document = .ok s) : s.Sound := by
  simp only [Signal.ofDocument, bind_eq_ok] at decoded
  obtain ⟨fields, -, strategy, -, symbol, -, direction, -, confidence, -, time, -, rationale, read, accepted⟩ := decoded
  split at accepted
  · rename_i unit
    cases accepted
    refine ⟨unit, ?_⟩
    rw [fieldOr_eq] at read
    cases given : fields.lookup "rationale" with
    | none =>
      rw [given] at read
      cases read
      exact nofun
    | some reasons =>
      rw [given] at read
      cases reasons with
      | map reasons =>
        cases (sortedMap_documents reasons).symm.trans read
        exact fun reason member => canonical_of_mem_fields reasons reason (SortedMap.mem_of_mem_ofList member)
      | _ => cases read
  · cases accepted

theorem Obtainable.sound {s : Signal} (obtainable : s.Obtainable) : s.Sound := by
  induction obtainable with
  | make strategy symbol direction confidence time => exact ⟨clampUnit_isUnit confidence, nofun⟩
  | hold strategy symbol time => exact ⟨clampUnit_isUnit 0.0, nofun⟩
  | because key value _ sound => exact sound.because key value
  | decoded decoded => exact .of_decoded decoded

theorem canonical_toDocument_ne_null (s : Signal) : s.toDocument.canonical ≠ .null := by
  rw [Signal.toDocument, canonical_record]
  exact nofun

theorem Sound.ofDocument_toDocument {s : Signal} (sound : s.Sound) (regular : s.time.Regular) (site : Site) :
    Signal.ofDocument site s.toDocument.canonical = .ok s := by
  have finite := isUnit_isFinite sound.unit
  have none : s.rationale.isEmpty = true → s.rationale = ∅ :=
    fun empty => SortedMap.ext (List.isEmpty_iff.mp empty)
  have reasons : sortedMap (fun value => .ok value.canonical) (map s.rationale.entries).canonical =
      .ok s.rationale := by
    rw [canonical_map, stored_entries, mapValues_fixed sound.fixed, sortedMap_documents,
      canonicalFields_entries, mapValues_fixed sound.fixed, SortedMap.ofList_entries]
  simp [Signal.ofDocument, Signal.toDocument, field, fieldOr_eq, lookup_stored_given, List.lookup_cons,
    Direction.ofDocument_toDocument, float_canonical, finite, instant_toText regular, sound.unit,
    elim_unless none reasons]

end Signal

/-- The signal that a verdict speaks of. -/
def Verdict.signal? : Verdict → Option Signal
  | accepted signal => some signal
  | rejected _ best => best

theorem Verdict.ofDocument_toDocument {verdict : Verdict}
    (sound : ∀ s ∈ verdict.signal?, s.Sound ∧ s.time.Regular) (site : Site) :
    Verdict.ofDocument site verdict.toDocument.canonical = .ok verdict := by
  cases verdict with
  | accepted signal =>
    obtain ⟨signalSound, regular⟩ := sound signal rfl
    have read := signalSound.ofDocument_toDocument regular .tagged
    have word : tagWord site ["accepted", "rejected"] (Document.text "accepted").canonical = .ok "accepted" := rfl
    simp [Verdict.ofDocument, Verdict.toDocument, field, lookup_stored,
      List.lookup_cons, read, word]
  | rejected reason best =>
    have word : tagWord site ["accepted", "rejected"] (Document.text "rejected").canonical = .ok "rejected" := rfl
    have read : optional (Signal.ofDocument .tagged) (Document.ofOption Signal.toDocument best).canonical =
        .ok best :=
      optional_canonical (fun s best => (sound s best).1.ofDocument_toDocument (sound s best).2 .tagged)
        Signal.canonical_toDocument_ne_null
    simp [Verdict.ofDocument, Verdict.toDocument, field, fieldOr_eq, lookup_stored,
      List.lookup_cons, read, word, RejectionReason.ofDocument_toDocument]

end SignalDesk
