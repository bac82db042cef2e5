import Mathlib.Data.List.Basic
import Mathlib.Data.List.Count
import Mathlib.Logic.Function.Basic

/-!
# Rules and routes of the kernel

The kernel as the policy routing of the client sees it through netlink: for each family a list of
policy rules, and for each table the routes by destination. `RouteReplace` overwrites the route of a
destination, and `RouteDel` removes it only if the gateway that is given matches. A rule that is
there already is refused, or accepted without effect, as `exclusive` says. A request without a
priority is for a new rule each time, as the kernel chooses a fresh one.

`added` and `replaced` are history variables: the rules and the routes that have been installed. No
operation reads them.
-/

namespace TlsVpn.Client

open Function List

/-- The address families. -/
inductive Family where
  | v4
  | v6
  deriving DecidableEq, Repr

/-- The numbers of `AF_INET` and `AF_INET6`. -/
def Family.code : Family → Nat
  | .v4 => 2
  | .v6 => 10

/-- An address by its number. -/
structure IP where
  family : Family
  value : Nat
  deriving DecidableEq, Repr

/-- An address prefix. -/
structure Prefix where
  family : Family
  base : Nat
  ones : Nat
  deriving DecidableEq, Repr

/-- The destination of a default route. -/
def Prefix.default (family : Family) : Prefix := ⟨family, 0, 0⟩

/-- A policy rule. `none` stands for a priority that the kernel has chosen. -/
structure Rule where
  mark : Nat
  table : Int
  src : Option Prefix
  priority : Option Nat
  deriving DecidableEq, Repr

/-- A route of a table. -/
structure Route where
  linkIndex : Nat
  dst : Prefix
  gw : Option IP
  table : Int
  deriving DecidableEq, Repr

/-- The request asks for a rule that is there. It names a priority, as the one that the kernel
chooses is not in use. -/
def Rule.Fits (requested existing : Rule) : Prop :=
  requested.mark = existing.mark ∧ requested.table = existing.table ∧
    requested.src = existing.src ∧
    requested.priority ≠ none ∧ requested.priority = existing.priority

instance (requested existing : Rule) : Decidable (requested.Fits existing) :=
  inferInstanceAs (Decidable (_ ∧ _))

theorem Rule.fits_self {r : Rule} (hgiven : r.priority ≠ none) : r.Fits r :=
  ⟨rfl, rfl, rfl, hgiven, rfl⟩

/-- The rules and routes, and what the client has asked for. -/
structure Kernel where
  exclusive : Bool
  rules : Family → List Rule
  routes : Int → Prefix → Option Route
  added : List (Family × Rule)
  replaced : List Route

namespace Kernel

/-- A kernel with some rules and routes, none of them installed by the client. -/
def start (exclusive : Bool) (rules : Family → List Rule)
    (routes : Int → Prefix → Option Route) : Kernel where
  exclusive := exclusive
  rules := rules
  routes := routes
  added := []
  replaced := []

/-- `RuleAdd`, with whether it succeeds. -/
def ruleAdd (k : Kernel) (family : Family) (r : Rule) : Bool × Kernel :=
  if ∃ existing ∈ k.rules family, r.Fits existing then
    if k.exclusive then (false, k) else (true, { k with added := k.added ++ [(family, r)] })
  else
    (true, { k with
      rules := update k.rules family (k.rules family ++ [r])
      added := k.added ++ [(family, r)] })

/-- `RuleDel`. -/
def ruleDel (k : Kernel) (family : Family) (r : Rule) : Kernel :=
  { k with rules := update k.rules family ((k.rules family).erase r) }

/-- `RuleList`, and `RuleDel` for every rule of the list that meets the condition. -/
def ruleDelWhere (k : Kernel) (family : Family) (p : Rule → Bool) : Kernel :=
  (k.rules family).foldl (fun k r => if p r then k.ruleDel family r else k) k

/-- `RouteReplace`. -/
def routeReplace (k : Kernel) (route : Route) : Kernel :=
  { k with
    routes := update k.routes route.table
      (update (k.routes route.table) route.dst (some route))
    replaced := k.replaced ++ [route] }

/-- A gateway that is given has to be the one of the route. -/
def routeMatches (route : Route) (existing : Route) : Bool :=
  route.gw = none || route.gw = existing.gw

/-- `RouteDel`. Deleting what is not there is an error without effect. -/
def routeDel (k : Kernel) (route : Route) : Kernel :=
  if (k.routes route.table route.dst).any (routeMatches route) then
    { k with
      routes := update k.routes route.table
        (update (k.routes route.table) route.dst none) }
  else k

/-! ## Deleting -/

/-- Nothing is installed, and what is there was there before. -/
structure Shrinks (k k' : Kernel) : Prop where
  rules : ∀ family, (k'.rules family).Sublist (k.rules family)
  routes : ∀ table dst, k'.routes table dst = none ∨ k'.routes table dst = k.routes table dst
  added : k'.added = k.added
  replaced : k'.replaced = k.replaced
  exclusive : k'.exclusive = k.exclusive

namespace Shrinks

theorem refl (k : Kernel) : Shrinks k k where
  rules _ := .refl _
  routes _ _ := .inr rfl
  added := rfl
  replaced := rfl
  exclusive := rfl

theorem trans {k k' k'' : Kernel} (hfirst : Shrinks k k') (hsecond : Shrinks k' k'') :
    Shrinks k k'' where
  rules family := (hsecond.rules family).trans (hfirst.rules family)
  routes table dst := by
    rcases hsecond.routes table dst with hgone | hsame
    · exact .inl hgone
    · rw [hsame]
      exact hfirst.routes table dst
  added := hsecond.added.trans hfirst.added
  replaced := hsecond.replaced.trans hfirst.replaced
  exclusive := hsecond.exclusive.trans hfirst.exclusive

theorem foldl {α : Type} {f : Kernel → α → Kernel} (hshrinks : ∀ k a, Shrinks k (f k a))
    (l : List α) (k : Kernel) : Shrinks k (l.foldl f k) := by
  induction l generalizing k with
  | nil => exact refl k
  | cons a l ih => exact (hshrinks k a).trans (ih (f k a))

/-- What one of the deletions establishes and no deletion undoes holds after all of them. -/
theorem foldl_establishes {α : Type} {f : Kernel → α → Kernel} {P : Kernel → Prop}
    (hshrinks : ∀ k a, Shrinks k (f k a)) (hstable : ∀ k k', Shrinks k k' → P k → P k')
    {l : List α} {a : α} (hfound : a ∈ l) (hestablishes : ∀ k, P (f k a)) (k : Kernel) :
    P (l.foldl f k) := by
  obtain ⟨before, after, rfl⟩ := append_of_mem hfound
  rw [foldl_append, foldl_cons]
  exact hstable _ _ (foldl hshrinks after _) (hestablishes _)

/-- A rule that is gone stays gone. -/
theorem not_mem {k k' : Kernel} (h : Shrinks k k') {family : Family} {r : Rule}
    (hgone : r ∉ k.rules family) : r ∉ k'.rules family :=
  fun hfound => hgone ((h.rules family).subset hfound)

/-- A route that is gone stays gone. -/
theorem routes_ne {k k' : Kernel} (h : Shrinks k k') {route : Route}
    (hgone : k.routes route.table route.dst ≠ some route) :
    k'.routes route.table route.dst ≠ some route := by
  rcases h.routes route.table route.dst with hnone | hsame
  · rw [hnone]
    nofun
  · rwa [hsame]

end Shrinks

theorem ruleDel_shrinks (k : Kernel) (family : Family) (r : Rule) :
    Shrinks k (k.ruleDel family r) where
  rules other := by
    by_cases hsame : other = family
    · subst hsame
      simpa [ruleDel] using erase_sublist
    · simp [ruleDel, hsame]
  routes _ _ := .inr rfl
  added := rfl
  replaced := rfl
  exclusive := rfl

theorem ruleDelWhere_shrinks (k : Kernel) (family : Family) (p : Rule → Bool) :
    Shrinks k (k.ruleDelWhere family p) := by
  refine Shrinks.foldl (fun k r => ?_) _ k
  split
  · exact ruleDel_shrinks k family r
  · exact .refl k

theorem routeDel_shrinks (k : Kernel) (route : Route) : Shrinks k (k.routeDel route) where
  rules _ := by unfold routeDel; split <;> exact .refl _
  routes table dst := by
    unfold routeDel
    split
    · by_cases hsameTable : table = route.table
      · by_cases hsameDst : dst = route.dst
        · simp [hsameTable, hsameDst]
        · simp [hsameTable, hsameDst]
      · simp [hsameTable]
    · exact .inr rfl
  added := by unfold routeDel; split <;> rfl
  replaced := by unfold routeDel; split <;> rfl
  exclusive := by unfold routeDel; split <;> rfl

/-- How often a rule stands in the list after the deletions. -/
theorem count_foldl_ruleDel (family : Family) (p : Rule → Bool) (r : Rule) (l : List Rule)
    (k : Kernel) :
    ((l.foldl (fun k r => if p r then k.ruleDel family r else k) k).rules family).count r =
      ((k.rules family).count r) - (if p r then l.count r else 0) := by
  induction l generalizing k with
  | nil => simp
  | cons a l ih =>
    rw [foldl_cons, ih]
    by_cases hsame : a = r
    · subst hsame
      by_cases hholds : p a
      · simp only [hholds, if_true, ruleDel, update_self, count_erase_self,
          count_cons_self]
        omega
      · simp [hholds]
    · by_cases hholds : p a
      · simp only [hholds, if_true, ruleDel, update_self,
          count_erase_of_ne (Ne.symm hsame), count_cons_of_ne hsame]
      · simp [hholds, count_cons_of_ne hsame]

/-- No rule that meets the condition is left. -/
theorem not_mem_ruleDelWhere (k : Kernel) (family : Family) {p : Rule → Bool} {r : Rule}
    (hholds : p r = true) : r ∉ (k.ruleDelWhere family p).rules family := by
  rw [← count_eq_zero, ruleDelWhere, count_foldl_ruleDel, if_pos hholds]
  omega

/-- The route is not there after it has been deleted with its gateway or with none. -/
theorem routes_routeDel (k : Kernel) {route existing : Route}
    (htable : route.table = existing.table) (hdst : route.dst = existing.dst)
    (hgw : route.gw = none ∨ route.gw = existing.gw) :
    (k.routeDel route).routes existing.table existing.dst ≠ some existing := by
  intro hfound
  have hbefore : k.routes existing.table existing.dst = some existing := by
    rcases (routeDel_shrinks k route).routes existing.table existing.dst with hgone | hsame
    · rw [hgone] at hfound
      cases hfound
    · rw [← hsame, hfound]
  have hfits : (k.routes route.table route.dst).any (routeMatches route) = true := by
    rw [htable, hdst, hbefore]
    simpa [routeMatches] using hgw
  rw [routeDel, if_pos hfits, htable, hdst] at hfound
  simp at hfound

end Kernel

end TlsVpn.Client
