-- How domains are ranked: by the number of their rules that match, and by the order in which they
-- are declared where that is the same. The first of them is the domain of a question, and tells how
-- sure the domain is.
import Mathlib.Data.List.Nodup
import Reckoner.Proofs.Question.Literals
import Reckoner.Proofs.Sorting

namespace Reckoner

/-! ## Ranks -/

/-- One domain is declared before another. -/
def Domain.Precedes (a b : Domain) : Prop := [a, b].Sublist Domain.all

/-- More rules of one domain match the text, or as many of them and it is declared first. -/
def Outranks (text : String) (a b : Domain) : Prop :=
  b.score text < a.score text ∨ b.score text = a.score text ∧ a.Precedes b

/-- The domains of which a rule matches the text, with the numbers of their matching rules, by rank. -/
structure IsRanking (text : String) (ranked : List (Domain × ℕ)) : Prop where
  scores : ∀ d n, (d, n) ∈ ranked ↔ n = d.score text ∧ 0 < n
  once : (ranked.map Prod.fst).Nodup
  ordered : (ranked.map Prod.fst).Pairwise (Outranks text)

namespace Domain

theorem mem_all (d : Domain) : d ∈ all := by cases d <;> decide

theorem nodup_all : all.Nodup := by decide

theorem pairwise_all : all.Pairwise Precedes := List.pairwise_of_forall_sublist id

theorem algebra_precedes {d : Domain} (h : d ≠ .algebra) : Precedes .algebra d := by
  unfold Precedes
  cases d <;> first | exact absurd rfl h | decide

/-- Of two domains one at most is declared before the other. -/
theorem Precedes.asymm {a b : Domain} (h : Precedes a b) : ¬ Precedes b a := by
  have order : all.Pairwise fun a b => all.idxOf a < all.idxOf b := by decide
  have place : ∀ {a b : Domain}, Precedes a b → all.idxOf a < all.idxOf b := by
    intro a b declared
    exact (List.pairwise_cons.1 (List.Pairwise.sublist declared order)).1 b List.mem_cons_self
  exact fun back => Nat.lt_asymm (place h) (place back)

/-- No domain has more than nine rules. -/
theorem score_le (d : Domain) (text : String) : d.score text ≤ 9 := by
  have few : d.rules.length ≤ 9 := by cases d <;> decide
  exact List.countP_le_length.trans few

end Domain

theorem Outranks.asymm {text : String} {a b : Domain} (h : Outranks text a b) :
    ¬ Outranks text b a := by
  rintro (more | ⟨same, back⟩)
  · rcases h with less | ⟨same, -⟩ <;> omega
  · rcases h with less | ⟨-, first⟩
    · omega
    · exact first.asymm back

theorem rankedDomains_perm (text : String) : (rankedDomains text).Perm
    ((Domain.all.map fun d => (d, d.score text)).filter fun entry => 0 < entry.2) := sortBy_perm _ _

theorem mem_rankedDomains {text : String} {d : Domain} {n : ℕ} :
    (d, n) ∈ rankedDomains text ↔ n = d.score text ∧ 0 < n := by
  rw [(rankedDomains_perm text).mem_iff]
  simp [Domain.mem_all, eq_comm]

theorem isRanking_rankedDomains (text : String) : IsRanking text (rankedDomains text) where
  scores := fun _ _ => mem_rankedDomains
  once := by
    rw [((rankedDomains_perm text).map Prod.fst).nodup_iff]
    refine (List.filter_sublist.map Prod.fst).nodup ?_
    simpa [Function.comp_def] using Domain.nodup_all
  ordered := by
    have declared : ((Domain.all.map fun d => (d, d.score text)).filter fun entry => 0 < entry.2).Pairwise
        fun a b => a.1.Precedes b.1 :=
      List.Pairwise.filter _ (List.pairwise_map.2 Domain.pairwise_all)
    have sorted : (rankedDomains text).Pairwise
        (KeyOrder (fun entry => OrderDual.toDual entry.2) fun a b => a.1.Precedes b.1) :=
      sortBy_stable (fun _ _ _ _ => rfl) declared
    refine List.pairwise_map.2 (sorted.imp_of_mem fun {a b} ha hb h => ?_)
    obtain ⟨sa, -⟩ := mem_rankedDomains.1 ha
    obtain ⟨sb, -⟩ := mem_rankedDomains.1 hb
    unfold Outranks
    rw [← sa, ← sb]
    exact h.imp_right fun same => ⟨(OrderDual.toDual_inj.1 same.1).symm, same.2⟩

/-! ## The first domain -/

theorem Classification.domains_ofRanking (question : String) (ranked : List (Domain × ℕ))
    (numbers : List Value) : (ofRanking question ranked numbers).domains = ranked.map Prod.fst := rfl

namespace IsRanking

variable {text : String} {ranked : List (Domain × ℕ)}

/-- Without a ranked domain no rule matches. -/
theorem score_eq_zero (h : IsRanking text []) (d : Domain) : d.score text = 0 := by
  by_contra some
  exact absurd ((h.scores d _).2 ⟨rfl, Nat.pos_of_ne_zero some⟩) List.not_mem_nil

/-- The first domain of a ranking, or else the default one, outranks all others. -/
theorem primary_outranks (h : IsRanking text ranked) (question : String) (numbers : List Value)
    {d : Domain} (hd : d ≠ (Classification.ofRanking question ranked numbers).primary) :
    Outranks text (Classification.ofRanking question ranked numbers).primary d := by
  cases ranked with
  | nil => exact .inr ⟨by rw [h.score_eq_zero, h.score_eq_zero], Domain.algebra_precedes hd⟩
  | cons e rest =>
    obtain ⟨first, n⟩ := e
    obtain ⟨rfl, some⟩ := (h.scores first n).1 (List.mem_cons_self ..)
    rcases Nat.eq_zero_or_pos (d.score text) with none | positive
    · exact .inl (none ▸ some)
    · rcases List.mem_cons.1 ((h.scores d _).2 ⟨rfl, positive⟩) with same | later
      · exact absurd (congrArg Prod.fst same) hd
      · exact (List.pairwise_cons.1 h.ordered).1 d (List.mem_map_of_mem later)

/-- The domain of a question is the one that outranks all others. -/
theorem primary_eq_iff (h : IsRanking text ranked) (question : String) (numbers : List Value)
    {d : Domain} : (Classification.ofRanking question ranked numbers).primary = d ↔
      ∀ e ≠ d, Outranks text d e := by
  constructor
  · rintro rfl
    exact fun e he => h.primary_outranks question numbers he
  · intro first
    by_contra other
    exact (first _ other).asymm (h.primary_outranks question numbers (Ne.symm other))

/-- Where no rule matches at all, the domain is algebra. -/
theorem primary_eq_algebra (h : IsRanking text ranked) (none : ∀ d : Domain, d.score text = 0)
    (question : String) (numbers : List Value) :
    (Classification.ofRanking question ranked numbers).primary = .algebra := by
  cases ranked with
  | nil => rfl
  | cons e rest =>
    have some := ((h.scores e.1 e.2).1 (List.mem_cons_self ..))
    exact absurd (some.1.trans (none e.1)) some.2.ne'

end IsRanking

/-! ## Confidence -/

/-- How sure the domain is for a number of matching rules. -/
def confidenceAt (score : ℕ) : Float :=
  if score = 0 then defaultConfidence else confidenceOf score

/-- More rules make the domain no less sure. -/
theorem confidenceAt_mono {m n : ℕ} (h : m ≤ n) (hn : n ≤ 9) : confidenceAt m ≤ confidenceAt n := by
  have table : ∀ n ∈ List.range 10, ∀ m ∈ List.range (n + 1), confidenceAt m ≤ confidenceAt n := by
    decide +kernel
  exact table n (List.mem_range.2 (by omega)) m (List.mem_range.2 (by omega))

theorem confidenceAt_bounds {n : ℕ} (h : n ≤ 9) : 0.3 ≤ confidenceAt n ∧ confidenceAt n ≤ 0.95 := by
  have table : ∀ n ∈ List.range 10, (0.3 : Float) ≤ confidenceAt n ∧ confidenceAt n ≤ 0.95 := by
    decide +kernel
  exact table n (List.mem_range.2 (by omega))

theorem IsRanking.confidence_eq {text : String} {ranked : List (Domain × ℕ)}
    (h : IsRanking text ranked) (question : String) (numbers : List Value) :
    (Classification.ofRanking question ranked numbers).confidence =
      confidenceAt ((Classification.ofRanking question ranked numbers).primary.score text) := by
  cases ranked with
  | nil => simp [Classification.ofRanking, confidenceAt, h.score_eq_zero]
  | cons e rest =>
    obtain ⟨first, n⟩ := e
    obtain ⟨rfl, some⟩ := (h.scores first n).1 (List.mem_cons_self ..)
    simp [Classification.ofRanking, confidenceAt, some.ne']

/-! ## Questions -/

/-- Any text is ranked by the rules of the domains. A question whose literals can be read is classified
by the ranking of its normalized text: its domains are those of the ranking, its own domain is the one
that outranks all others (algebra where no rule matches), and how sure that is goes by the number of
rules that match for it, never down with more of them and always between 0.3 and 0.95. -/
theorem domains_are_ranked_by_their_rules :
    (∀ text, IsRanking text (rankedDomains text)) ∧
    (∀ (question : Value) (text : String), questionText question = .ok text →
      (∀ l ∈ literals text, l.Readable) →
      ∃ c, (questionText question >>= Classification.ofQuestion) = .ok c ∧
        c.domains = (rankedDomains (normalized text)).map Prod.fst ∧
        (∀ d ≠ c.primary, Outranks (normalized text) c.primary d) ∧
        ((∀ d : Domain, d.score (normalized text) = 0) → c.primary = .algebra) ∧
        c.confidence = confidenceAt (c.primary.score (normalized text))) ∧
    (∀ (d e : Domain) (s t : String), d.score s ≤ e.score t →
      confidenceAt (d.score s) ≤ confidenceAt (e.score t)) ∧
    ∀ (d : Domain) (s : String),
      0.3 ≤ confidenceAt (d.score s) ∧ confidenceAt (d.score s) ≤ 0.95 := by
  refine ⟨isRanking_rankedDomains, fun question text ht readable => ?_,
    fun d e s t h => confidenceAt_mono h (e.score_le t), fun d s => confidenceAt_bounds (d.score_le s)⟩
  obtain ⟨numbers, hn⟩ := literalValues_of_readable readable
  have ranking := isRanking_rankedDomains (normalized text)
  have classified : (questionText question >>= Classification.ofQuestion) =
      .ok (.ofRanking text (rankedDomains (normalized text)) numbers) := by
    simp only [ht, ok_bind, Classification.ofQuestion, numbersIn, hn, pure, Except.pure]
  exact ⟨_, classified, Classification.domains_ofRanking _ _ _,
    fun d hd => ranking.primary_outranks _ _ hd, fun none => ranking.primary_eq_algebra none _ _,
    ranking.confidence_eq _ _⟩

end Reckoner
