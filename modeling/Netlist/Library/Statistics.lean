import Netlist.Expression.Function

/-!
Random functions for statistical analyses. All of them draw from the generator that a chain of
scopes shares, so a seeded generator gives the same values again.
-/
namespace Netlist.Library

/-- A sample of the standard normal distribution, made of two draws. The first one is taken from
one, which keeps it away from zero. -/
def standardNormal : Program Float :=
  .draw fun first => .draw fun second =>
    let u := 1 - unitInterval first
    .done ((-2 * u.log).sqrt * (2 * 3.141592653589793 * unitInterval second).cos)

/-- A sample of the uniform distribution on `[-1, 1)`. -/
def symmetricUniform : Program Float := .draw fun draw => .done (symmetricInterval draw)

/-- A normal sample around a nominal value; `deviation` gives its spread from the nominal value,
the variation and the number of standard deviations that the variation stands for. -/
private def gaussian (name : String) (deviation : Float → Float → Float → Float → Float) : Function where
  name := chars name
  arity := .atLeast 2
  logic := .evaluated fun
    | [nominal, variation] => do return deviation nominal variation 1 (← standardNormal)
    | [nominal, variation, sigma] => do return deviation nominal variation sigma (← standardNormal)
    | vs => .fail (.arity (chars name) (chars "at most 3") vs.length)

private def uniform (name : String) (f : Float → Float → Float → Float) : Function where
  name := chars name
  arity := .fixed 2
  logic := .evaluated fun
    | [nominal, variation] => do return f nominal variation (← symmetricUniform)
    | _ => .violated

def statistics : List Function := [
  { name := chars "random", arity := .fixed 0
    logic := .evaluated fun _ => .draw fun draw => .done (unitInterval draw) },
  gaussian "gauss" fun nominal variation sigma z => nominal + nominal * variation / sigma * z,
  gaussian "agauss" fun nominal variation sigma z => nominal + variation / sigma * z,
  uniform "unif" fun nominal variation u => nominal + nominal * variation * u,
  uniform "aunif" fun nominal variation u => nominal + variation * u,
  { name := chars "flat", arity := .fixed 1
    logic := .evaluated fun
      | [width] => do return width * (← symmetricUniform)
      | _ => .violated }]

end Netlist.Library
