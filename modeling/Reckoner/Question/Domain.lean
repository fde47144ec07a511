-- The domains of mathematics, with the rules by which a question shows that it belongs to
-- one. The more rules of a domain match, the higher it ranks.
import Reckoner.Sorting
import Reckoner.Text.Pattern

namespace Reckoner

/-! ## Domains -/

/-- A domain of mathematics. -/
inductive Domain where
  | algebra | calculus | geometry | trigonometry | numberTheory | probability | statistics
  | linearAlgebra | discreteMath | vedicMath | olympiad
deriving DecidableEq

namespace Domain

/-- All domains, in the order in which ties are settled. -/
def all : List Domain :=
  [algebra, calculus, geometry, trigonometry, numberTheory, probability, statistics,
    linearAlgebra, discreteMath, vedicMath, olympiad]

def name : Domain → String
  | algebra => "algebra"
  | calculus => "calculus"
  | geometry => "geometry"
  | trigonometry => "trigonometry"
  | numberTheory => "number_theory"
  | probability => "probability"
  | statistics => "statistics"
  | linearAlgebra => "linear_algebra"
  | discreteMath => "discrete_math"
  | vedicMath => "vedic_math"
  | olympiad => "olympiad"

end Domain

/-! ## Rules -/

/-- A rule: it matches where one of its patterns occurs. -/
abbrev Rule := List Pattern

/-- A rule for one of some words. -/
def anyWord (words : List String) : Rule := words.map letters

/-- A rule for a word. -/
def word (s : String) : Rule := [letters s]

/-- A rule for one text after another on a line. -/
def wordThen (first : String) (next : Pattern) : Rule := [letters first ++ .many .any :: next]

/-- A rule for two words on a line. -/
def wordPair (first second : String) : Rule := wordThen first (letters second)

/-- A rule for some words that stand by themselves. -/
def wholeWords (words : List String) : Rule :=
  words.map fun s => .edge :: letters s ++ [.edge]

/-- A number that ends a sentence. -/
def lastNumber : Pattern := [.one .digit, .many .digit, .many .closer, .finish]

namespace Domain

/-- The rules of a domain. -/
def rules : Domain → List Rule
  | algebra =>
    [wordPair "solve" "equation", word "quadratic", word "polynomial", word "factor",
      word "simplif", word "expand", wordPair "linear" "system", word "inequality"]
  | calculus =>
    [word "derivative", word "integral", word "limit", word "differential", word "dy/dx",
      word "∫", word "∂", word "gradient", anyWord ["maxima", "minima"]]
  | geometry =>
    [word "triangle", word "circle", word "area", word "perimeter", word "volume", word "angle",
      word "pythagor", word "coordinate", wordPair "distance" "point"]
  | trigonometry =>
    [["sin", "cos", "tan"].map fun s => .notAfter .letter :: letters s,
      word "trigonometric", anyWord ["radian", "degree"],
      ["sec", "csc", "cot"].map fun s => .notAfter .letter :: letters s ++ [.notBefore .letter],
      wordPair "inverse" "trig"]
  | numberTheory =>
    [word "prime", wordThen "factor" [.one .digit], anyWord ["gcd", "lcm"], word "divisib",
      [letters "modulo", letters "mod" ++ [.one .blank]], word "congruence", word "euler"]
  | probability =>
    [word "probability", word "chance", word "likelihood", word "random",
      anyWord ["dice", "coin"], word "permutation", word "combination"]
  | statistics =>
    [anyWord ["mean", "average"], word "median", wholeWords ["mode"], word "standard deviation",
      word "variance", word "correlation", word "regression", word "distribution"]
  | linearAlgebra =>
    [anyWord ["matrix", "matrices"], word "determinant", word "eigenvalue", word "vector",
      wordPair "dot" "product", wordPair "cross" "product", wholeWords ["rank"],
      word "transpose"]
  | discreteMath =>
    [wordPair "graph" "theory", [.edge :: letters "tree"], wordPair "path" "graph",
      word "combinatorics", word "recurrence", word "sequence", word "series", word "fibonacci"]
  | vedicMath =>
    [word "vedic", wordPair "mental" "math", wordPair "fast" "multiply",
      wordThen "square" lastNumber, wordThen "cube" lastNumber, word "ekadhikena",
      word "nikhilam", wordPair "urdhva" "tiryak"]
  | olympiad =>
    [word "olympiad", word "prove", wordPair "show" "that", wordPair "find" "all",
      wholeWords ["imo", "aime", "usamo"]]

/-! ## Ranking -/

/-- The number of rules of the domain that match a text. -/
def score (d : Domain) (text : String) : Nat := d.rules.countP fun rule => anyOccurs rule text

end Domain

/-- The domains that a text belongs to with their scores, the highest first. -/
def rankedDomains (text : String) : List (Domain × Nat) :=
  sortBy (fun a b => decide (b.2 ≤ a.2))
    ((Domain.all.map fun d => (d, d.score text)).filter fun entry => 0 < entry.2)

end Reckoner
