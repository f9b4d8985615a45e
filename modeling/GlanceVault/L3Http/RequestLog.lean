import GlanceVault.L3Http.Endpoints
/-!
# What the request log shows of a path

`redactPath` turns the path of a request into a template built from literals
and placeholders. It reads a segment only to compare it with the literals
that the mounted routes have at its place, so two paths that hold the same
literals at the same places are logged alike. It does not know the method:
an entity id `list`, which is a parameter of a `DELETE`, is printed as the
literal it spells.

* `redactBy_length`, `redactBy_vocabulary`, `redactBy_skeleton`: the rule each
  router's paths are redacted by.
* `template_length`, `template_vocabulary`, `template_skeleton`: the same for
  a whole path.
* `template_route`: on the path of a mounted route it is the route's pattern.
* `log_redacted`: the facts about paths.
-/
namespace GlanceVault.L3
open GlanceVault.Core.Routing GlanceVault.L1

/-! ## `redactPath` -/

/-- `parts[i] === a || .. ? parts[i] : other` -/
def keepLiteral (literals : List String) (other p : String) : String :=
  if p ∈ literals then p else other

/-- One rule for each of the first segments, the literals it keeps and what it
prints for any other; `:seg` for the segments after them. -/
def redactBy : List (List String × String) → List String → List String
  | _, [] => []
  | [], _ :: ps => ":seg" :: redactBy [] ps
  | (literals, other) :: rules, p :: ps => keepLiteral literals other p :: redactBy rules ps

/-- mirrors src/middleware/request-log.ts:69-89 (`case "blobs"`) -/
def templateBlobs : List String → List String
  | [] => []
  | p :: ps =>
    if p = "uploads" then
      "uploads" :: redactBy [([], ":uploadId"), (["parts", "finalize"], ":seg"), ([], ":index")] ps
    else ":hash" :: redactBy [(["ref-add", "ref-release"], ":seg")] ps

/-- `out`, for the segments of a path.
mirrors src/middleware/request-log.ts:40-99 -/
def template : List String → List String
  | [] => []
  | first :: ps =>
    if first = "sync" then
      "sync" :: redactBy [([], ":app"), (["batch", "device", "list"], ":entityId")] ps
    else if first = "intents" then "intents" :: redactBy [(["batch", "list"], ":seg")] ps
    else if first = "salt" then "salt" :: redactBy [([], ":accountId")] ps
    else if first = "blobs" then "blobs" :: templateBlobs ps
    else if first = "events" then "events" :: redactBy [] ps
    else ":seg" :: redactBy [] ps

/-- `path.split("/").filter((p) => p !== "")` -/
def parts (path : String) : List String := (Uri.split path).filter fun p => decide (p ≠ "")

/-- mirrors src/middleware/request-log.ts:32-101 -/
def redactPath (path : String) : String :=
  if parts path = [] then "/" else Uri.join ("" :: template (parts path))

/-! ## What a path is logged by -/

/-- Everything a template is made of. -/
def vocabulary : List String :=
  ["sync", "intents", "salt", "blobs", "events", "batch", "device", "list", "uploads", "parts",
    "finalize", "ref-add",
    "ref-release", ":app", ":entityId", ":accountId", ":uploadId", ":index", ":hash", ":seg"]

/-- The literals the mounted routes have at the `k`-th segment. -/
def literalsAt (k : Nat) : List String :=
  endpoints.filterMap fun r => r.pattern[k]?.bind Piece.literal

/-- The literal a segment is, at the `k`-th place. -/
def mark (k : Nat) (p : String) : Option String := if p ∈ literalsAt k then some p else none

/-- How many segments a path has from the `k`-th on, and which literals stand
where. -/
def skeleton : Nat → List String → List (Option String)
  | _, [] => []
  | k, p :: ps => mark k p :: skeleton (k + 1) ps

/-- The literals that are printed at the place of a parameter. -/
def shadows (name : String) : List String :=
  if name = "entityId" then ["batch", "device", "list"]
  else if name = "hash" then ["uploads"] else []

/-- No parameter spells a literal that is printed at its place. -/
def Unshadowed (p : Pattern) (segments : List String) : Prop :=
  List.Forall₂ (fun piece s => ∀ name, piece = .param name → s ∉ shadows name) p segments

/-! ## Redaction by rules -/

theorem redactBy_length : ∀ (rules : List (List String × String)) (ps : List String),
    (redactBy rules ps).length = ps.length
  | [], [] => rfl
  | _ :: _, [] => rfl
  | [], _ :: ps => congrArg (· + 1) (redactBy_length [] ps)
  | _ :: rules, _ :: ps => congrArg (· + 1) (redactBy_length rules ps)

theorem redactBy_vocabulary : ∀ (rules : List (List String × String)) (ps : List String),
    (∀ r ∈ rules, ∀ l ∈ r.2 :: r.1, l ∈ vocabulary) → ∀ s ∈ redactBy rules ps, s ∈ vocabulary
  | [], [], _, _, hs => (List.not_mem_nil hs).elim
  | _ :: _, [], _, _, hs => (List.not_mem_nil hs).elim
  | [], _ :: ps, h, s, hs => by
    rcases List.mem_cons.1 hs with rfl | hs
    · decide
    · exact redactBy_vocabulary [] ps h s hs
  | (literals, other) :: rules, p :: ps, h, s, hs => by
    have hr := h (literals, other) List.mem_cons_self
    rcases List.mem_cons.1 hs with rfl | hs
    · unfold keepLiteral
      split
      · rename_i hp; exact hr p (List.mem_cons_of_mem _ hp)
      · exact hr other List.mem_cons_self
    · exact redactBy_vocabulary rules ps (fun r hm => h r (List.mem_cons_of_mem _ hm)) s hs

theorem mark_eq {k : Nat} {p q l : String} (h : mark k p = mark k q) (hl : l ∈ literalsAt k) :
    p = l ↔ q = l := by
  unfold mark at h
  constructor
  · rintro rfl
    rw [if_pos hl] at h
    split at h
    · exact (Option.some.inj h).symm
    · cases h
  · rintro rfl
    rw [if_pos hl] at h
    split at h
    · exact Option.some.inj h
    · cases h

theorem keepLiteral_mark {k : Nat} {p q other : String} {literals : List String}
    (h : mark k p = mark k q)
    (hl : ∀ l ∈ literals, l ∈ literalsAt k) :
    keepLiteral literals other p = keepLiteral literals other q := by
  unfold keepLiteral
  by_cases hp : p ∈ literals
  · rw [(mark_eq h (hl p hp)).1 rfl]
  · have hq : q ∉ literals := fun hq => hp ((mark_eq h (hl q hq)).2 rfl ▸ hq)
    rw [if_neg hp, if_neg hq]

/-- Rules that keep no other literals than those of their place see the
skeleton only. -/
theorem redactBy_skeleton : ∀ (rules : List (List String × String)) (k : Nat) (ps qs : List String),
    (∀ i (hi : i < rules.length), ∀ l ∈ rules[i].1, l ∈ literalsAt (k + i)) →
      skeleton k ps = skeleton k qs →
      redactBy rules ps = redactBy rules qs
  | _, _, [], [], _, _ => rfl
  | _, _, [], _ :: _, _, h => by cases h
  | _, _, _ :: _, [], _, h => by cases h
  | [], k, _ :: ps, _ :: qs, hr, h => by
    obtain ⟨-, h⟩ := List.cons.inj h
    have hnil : ∀ i (hi : i < ([] : List (List String × String)).length),
        ∀ l ∈ ([] : List (List String × String))[i].1,
        l ∈ literalsAt (k + 1 + i) := fun i hi => absurd hi (Nat.not_lt_zero i)
    exact congrArg (":seg" :: ·) (redactBy_skeleton [] (k + 1) ps qs hnil h)
  | (literals, other) :: rules, k, p :: ps, q :: qs, hr, h => by
    obtain ⟨hm, h⟩ := List.cons.inj h
    have h0 : ∀ l ∈ literals, l ∈ literalsAt k := hr 0 (Nat.zero_lt_succ _)
    have hrest : ∀ i (hi : i < rules.length), ∀ l ∈ rules[i].1, l ∈ literalsAt (k + 1 + i) := by
      intro i hi l hl
      have := hr (i + 1) (Nat.succ_lt_succ hi) l hl
      rwa [Nat.add_comm i 1, ← Nat.add_assoc] at this
    rw [redactBy, redactBy, keepLiteral_mark hm h0, redactBy_skeleton rules (k + 1) ps qs hrest h]

/-! ## Templates -/

theorem templateBlobs_length (ps : List String) : (templateBlobs ps).length = ps.length := by
  cases ps with
  | nil => rfl
  | cons p ps =>
    rw [templateBlobs]
    split
    · simp [redactBy_length]
    · simp [redactBy_length]

theorem template_length (ps : List String) : (template ps).length = ps.length := by
  cases ps with
  | nil => rfl
  | cons first ps =>
    rw [template]
    split_ifs <;> simp [redactBy_length, templateBlobs_length]

theorem cons_vocabulary {s : String} {ss : List String} (h : s ∈ vocabulary)
    (hs : ∀ t ∈ ss, t ∈ vocabulary) :
    ∀ t ∈ s :: ss, t ∈ vocabulary := List.forall_mem_cons.2 ⟨h, hs⟩

theorem templateBlobs_vocabulary (ps : List String) : ∀ s ∈ templateBlobs ps, s ∈ vocabulary := by
  cases ps with
  | nil => exact fun s hs => (List.not_mem_nil hs).elim
  | cons p ps =>
    rw [templateBlobs]
    split
    · exact cons_vocabulary (by decide) (redactBy_vocabulary _ ps (by decide))
    · exact cons_vocabulary (by decide) (redactBy_vocabulary _ ps (by decide))

theorem template_vocabulary (ps : List String) : ∀ s ∈ template ps, s ∈ vocabulary := by
  cases ps with
  | nil => exact fun s hs => (List.not_mem_nil hs).elim
  | cons first ps =>
    rw [template]
    split_ifs
    · exact cons_vocabulary (by decide) (redactBy_vocabulary _ ps (by decide))
    · exact cons_vocabulary (by decide) (redactBy_vocabulary _ ps (by decide))
    · exact cons_vocabulary (by decide) (redactBy_vocabulary _ ps (by decide))
    · exact cons_vocabulary (by decide) (templateBlobs_vocabulary ps)
    · exact cons_vocabulary (by decide) (redactBy_vocabulary _ ps (by decide))
    · exact cons_vocabulary (by decide) (redactBy_vocabulary _ ps (by decide))

theorem templateBlobs_skeleton {ps qs : List String} (h : skeleton 1 ps = skeleton 1 qs) :
    templateBlobs ps = templateBlobs qs := by
  cases ps with
  | nil =>
    cases qs with
    | nil => rfl
    | cons _ _ => cases h
  | cons p ps =>
    cases qs with
    | nil => cases h
    | cons q qs =>
      obtain ⟨hm, h⟩ := List.cons.inj h
      rw [templateBlobs, templateBlobs,
        if_congr (mark_eq hm (by decide : "uploads" ∈ literalsAt 1)) rfl rfl]
      rw [redactBy_skeleton _ 2 ps qs (by decide) h, redactBy_skeleton _ 2 ps qs (by decide) h]

theorem template_skeleton {ps qs : List String} (h : skeleton 0 ps = skeleton 0 qs) :
    template ps = template qs := by
  cases ps with
  | nil =>
    cases qs with
    | nil => rfl
    | cons _ _ => cases h
  | cons first ps =>
    cases qs with
    | nil => cases h
    | cons first' qs =>
      obtain ⟨hm, h⟩ := List.cons.inj h
      have first_eq : ∀ l ∈ literalsAt 0, first = l ↔ first' = l := fun l hl => mark_eq hm hl
      rw [template, template]
      simp only [first_eq "sync" (by decide), first_eq "intents" (by decide),
        first_eq "salt" (by decide),
        first_eq "blobs" (by decide), first_eq "events" (by decide)]
      split_ifs
      · rw [redactBy_skeleton _ 1 ps qs (by decide) h]
      · rw [redactBy_skeleton _ 1 ps qs (by decide) h]
      · rw [redactBy_skeleton _ 1 ps qs (by decide) h]
      · rw [templateBlobs_skeleton h]
      · rw [redactBy_skeleton _ 1 ps qs (by decide) h]
      · rw [redactBy_skeleton _ 1 ps qs (by decide) h]

/-! ## Mounted routes -/

/-- A rule keeps the literal of a pattern, or prints the placeholder of its
parameter for every text that is not one of its literals. -/
def renders (literals : List String) (other : String) : Piece → Bool
  | .lit text => text ∈ literals
  | .param name => other == (Piece.param name).template && literals.all fun l => l ∈ shadows name

def Renders : List (List String × String) → Pattern → Bool
  | _, [] => true
  | [], _ :: _ => false
  | (literals, other) :: rules, piece :: p => renders literals other piece && Renders rules p

theorem redactBy_route : ∀ (rules : List (List String × String)) (p : Pattern) (ps : List String),
    Renders rules p = true → Spells p ps → Unshadowed p ps →
    redactBy rules ps = p.map Piece.template
  | [], _, _, _, .nil, _ => rfl
  | _ :: _, _, _, _, .nil, _ => rfl
  | [], _ :: _, _, h, _, _ => by cases h
  | (literals, other) :: rules, piece :: p, s :: ps, h, .cons hs hss, .cons hu hus => by
    obtain ⟨hf, h⟩ := Bool.and_eq_true_iff.1 h
    rw [redactBy, redactBy_route rules p ps h hss hus, List.map_cons]
    congr 1
    unfold keepLiteral
    cases piece with
    | lit text =>
      rw [show s = text from hs, if_pos (of_decide_eq_true hf)]
      rfl
    | param name =>
      obtain ⟨ho, hl⟩ := Bool.and_eq_true_iff.1 hf
      rw [if_neg, eq_of_beq ho]
      intro hm
      exact hu name rfl (of_decide_eq_true (List.all_eq_true.1 hl s hm))

/-- The segments after the first literal of a route. -/
theorem route_tail {first : String} {rules : List (List String × String)} {p : Pattern}
    {ps : List String}
    (hf : Renders rules p = true) (h : Spells (.lit first :: p) ps)
    (hu : Unshadowed (.lit first :: p) ps) :
    ∃ qs, ps = first :: qs ∧ redactBy rules qs = p.map Piece.template := by
  cases h with
  | @cons _ s _ qs hs h =>
    cases hu with
    | cons _ hu => exact ⟨qs, by rw [show s = first from hs], redactBy_route rules p qs hf h hu⟩

theorem templateBlobs_route {p : Pattern} {ps : List String}
    (hp : p = .lit "uploads" :: p.tail ∧
        Renders [([], ":uploadId"), (["parts", "finalize"], ":seg"), ([], ":index")] p.tail = true ∨
      p = .param "hash" :: p.tail ∧ Renders [(["ref-add", "ref-release"], ":seg")] p.tail = true)
    (h : Spells p ps) (hu : Unshadowed p ps) : templateBlobs ps = p.map Piece.template := by
  rcases hp with ⟨hp, hf⟩ | ⟨hp, hf⟩
  · rw [hp] at h hu ⊢
    obtain ⟨qs, rfl, hqs⟩ := route_tail hf h hu
    rw [templateBlobs, if_pos rfl, hqs]
    rfl
  · rw [hp] at h hu ⊢
    cases h with
    | @cons _ s _ qs _ h =>
      cases hu with
      | cons hs hu =>
        have hne : s ≠ "uploads" := fun e => hs "hash" rfl (by rw [e]; decide)
        rw [templateBlobs, if_neg hne, redactBy_route _ _ qs hf h hu]
        rfl

theorem template_route {r : Entry Method Endpoint} (hr : r ∈ endpoints) {ps : List String}
    (h : Spells r.pattern ps) (hu : Unshadowed r.pattern ps) :
    template ps = r.pattern.map Piece.template := by
  simp only [endpoints, List.mem_append] at hr
  rcases hr with (((hr | hr) | hr) | hr) | hr
  · have hp : ∀ r ∈ syncRouter, r.pattern = .lit "sync" :: r.pattern.tail ∧
        Renders [([], ":app"), (["batch", "device", "list"], ":entityId")] r.pattern.tail =
          true := by decide
    obtain ⟨hp, hf⟩ := hp r hr
    rw [hp] at h hu ⊢
    obtain ⟨qs, rfl, hqs⟩ := route_tail hf h hu
    rw [template, if_pos rfl, hqs]
    rfl
  · have hp : ∀ r ∈ intentsRouter, r.pattern = .lit "intents" :: r.pattern.tail ∧
        Renders [(["batch", "list"], ":seg")] r.pattern.tail = true := by decide
    obtain ⟨hp, hf⟩ := hp r hr
    rw [hp] at h hu ⊢
    obtain ⟨qs, rfl, hqs⟩ := route_tail hf h hu
    rw [template, if_neg (by decide), if_pos rfl, hqs]
    rfl
  · have hp : ∀ r ∈ saltRouter, r.pattern = .lit "salt" :: r.pattern.tail ∧
        Renders [([], ":accountId")] r.pattern.tail = true := by decide
    obtain ⟨hp, hf⟩ := hp r hr
    rw [hp] at h hu ⊢
    obtain ⟨qs, rfl, hqs⟩ := route_tail hf h hu
    rw [template, if_neg (by decide), if_neg (by decide), if_pos rfl, hqs]
    rfl
  · have hp : ∀ r ∈ blobsRouter, r.pattern = .lit "blobs" :: r.pattern.tail ∧
        (r.pattern.tail = .lit "uploads" :: r.pattern.tail.tail ∧
            Renders [([], ":uploadId"), (["parts", "finalize"], ":seg"),
              ([], ":index")] r.pattern.tail.tail = true ∨
          r.pattern.tail = .param "hash" :: r.pattern.tail.tail ∧
            Renders [(["ref-add", "ref-release"], ":seg")] r.pattern.tail.tail = true) := by decide
    obtain ⟨hp, hf⟩ := hp r hr
    rw [hp] at h hu ⊢
    cases h with
    | @cons _ s _ qs hs h =>
      cases hu with
      | cons _ hu =>
        rw [show s = "blobs" from hs, template, if_neg (by decide), if_neg (by decide),
          if_neg (by decide), if_pos rfl,
          templateBlobs_route hf h hu]
        rfl
  · have hp : ∀ r ∈ eventsRouter, r.pattern = .lit "events" :: r.pattern.tail ∧
        Renders [] r.pattern.tail = true := by decide
    obtain ⟨hp, hf⟩ := hp r hr
    rw [hp] at h hu ⊢
    obtain ⟨qs, rfl, hqs⟩ := route_tail hf h hu
    rw [template, if_neg (by decide), if_neg (by decide), if_neg (by decide),
      if_neg (by decide), if_pos rfl, hqs]
    rfl

/-! ## Paths -/

theorem vocabulary_plain : ∀ s ∈ vocabulary, '/' ∉ s.toList ∧ s ≠ "" := by decide

/-- The output splits into the template. -/
theorem parts_redactPath (path : String) : parts (redactPath path) = template (parts path) := by
  unfold redactPath
  split
  · rename_i h
    rw [h]
    decide
  · have hplain : ∀ s ∈ "" :: template (parts path), '/' ∉ s.toList := by
      intro s hs
      rcases List.mem_cons.1 hs with rfl | hs
      · decide
      · exact (vocabulary_plain s (template_vocabulary _ s hs)).1
    rw [parts, Uri.split_join hplain (List.cons_ne_nil _ _), List.filter_cons_of_neg (by decide)]
    exact List.filter_eq_self.2 fun s hs =>
      decide_eq_true (vocabulary_plain s (template_vocabulary _ s hs)).2

/-- **What reaches the log.** The segments of the output are of the
vocabulary and as many as the path has; paths with the same literals at the
same places are logged alike; and the path of a mounted route is logged as
the pattern of the route, unless a parameter spells a literal that is printed
at its place. -/
theorem log_redacted :
    (∀ path, (∀ s ∈ parts (redactPath path), s ∈ vocabulary) ∧
      (parts (redactPath path)).length = (parts path).length) ∧
    (∀ p q, skeleton 0 (parts p) = skeleton 0 (parts q) → redactPath p = redactPath q) ∧
    (∀ r ∈ endpoints, ∀ path, Spells r.pattern (parts path) → Unshadowed r.pattern (parts path) →
      redactPath path = Uri.join ("" :: r.pattern.map Piece.template)) := by
  refine ⟨fun path => ⟨?_, ?_⟩, fun p q h => ?_, fun r hr path h hu => ?_⟩
  · rw [parts_redactPath]
    exact template_vocabulary _
  · rw [parts_redactPath]
    exact template_length _
  · have hnil : parts p = [] ↔ parts q = [] := by
      cases hp : parts p with
      | nil =>
        cases hq : parts q with
        | nil => exact Iff.rfl
        | cons _ _ => rw [hp, hq] at h; cases h
      | cons _ _ =>
        cases hq : parts q with
        | nil => rw [hp, hq] at h; cases h
        | cons _ _ => simp
    unfold redactPath
    rw [template_skeleton h, if_congr hnil rfl rfl]
  · have hne : parts path ≠ [] := by
      intro he
      have hall : ∀ r ∈ endpoints, r.pattern ≠ [] := by decide
      rw [he] at h
      exact hall r hr (List.forall₂_nil_right_iff.1 h)
    unfold redactPath
    rw [if_neg hne, template_route hr h hu]

theorem log_redacted_part :
    redactPath "/blobs/uploads/u-17/parts/3" = "/blobs/uploads/:uploadId/parts/:index" := by
  have hparts : parts "/blobs/uploads/u-17/parts/3" =
      ["blobs", "uploads", "u-17", "parts", "3"] := by
    decide
  have hr :
      (⟨.put, [.lit "blobs", .lit "uploads", .param "uploadId", .lit "parts",
        .param "index"], .uploadPart⟩ :
      Entry Method Endpoint) ∈ endpoints := by simp [endpoints, blobsRouter]
  refine (log_redacted.2.2 _ hr "/blobs/uploads/u-17/parts/3" ?_ ?_).trans (by decide)
  · rw [hparts]
    exact .cons rfl
      (.cons rfl (.cons (by decide : "u-17" ≠ "") (.cons rfl (.cons (by decide : "3" ≠ "") .nil))))
  · rw [hparts]
    refine .cons ?_ (.cons ?_ (.cons ?_ (.cons ?_ (.cons ?_ .nil)))) <;>
      · intro name h
        cases h <;> decide

/-- The delete of an entity `list` is logged with the entity id. -/
theorem entity_id_logged :
    ¬ (∀ r ∈ endpoints, ∀ path, Spells r.pattern (parts path) →
        redactPath path = Uri.join ("" :: r.pattern.map Piece.template)) ∧
      dispatched .delete (pathSegments "/sync/dayglance/list") =
        .target .syncDelete ["dayglance", "list"] ∧
      redactPath "/sync/dayglance/list" = "/sync/:app/list" := by
  refine ⟨fun h => ?_, by decide +kernel, by decide⟩
  have hr :
      (⟨.delete, [.lit "sync", .param "app", .param "entityId"],
        .syncDelete⟩ : Entry Method Endpoint) ∈ endpoints := by
    simp [endpoints, syncRouter]
  have hs : Spells [.lit "sync", .param "app", .param "entityId"]
      (parts "/sync/dayglance/list") := by
    rw [show parts "/sync/dayglance/list" = ["sync", "dayglance", "list"] by decide]
    exact .cons rfl (.cons (by decide : "dayglance" ≠ "") (.cons (by decide : "list" ≠ "") .nil))
  have := h _ hr "/sync/dayglance/list" hs
  revert this
  decide

end GlanceVault.L3
