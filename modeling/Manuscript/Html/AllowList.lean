import Manuscript.Html.Url

/-!
The elements and attributes of HTML that are let through from a source that is not trusted.
-/

namespace Manuscript.Html.AllowList

/-- The elements that are let through. -/
def elements : List Text :=
  ["a", "br", "code", "div", "em", "h1", "h2", "h3", "h4", "hr", "img", "li", "ol", "p", "pre", "span", "strong",
   "sup", "ul"]

/-- The attributes that are let through on every element. -/
def generalAttributes : List Text := ["class", "id"]

/-- The attributes that are let through on single elements. -/
def elementAttributes : List (Text × List Text) :=
  [("a", ["href", "title"]), ("img", ["alt", "src"]), ("span", ["style"])]

/-- The attributes whose values are addresses. -/
def addressAttributes : List Text := ["href", "src"]

/-- Is an attribute let through on an element, whatever its value? -/
def hasAttribute (element name : Text) : Bool :=
  name ∈ generalAttributes || (Text.after? "data-" name).isSome ||
    (elementAttributes.lookup element).any fun names => name ∈ names

/-- Is an attribute let through on an element with its value? -/
def allows (element : Text) (a : Text × Text) : Bool :=
  hasAttribute element a.1 && (a.1 ∉ addressAttributes || Url.isPermitted a.2)

/-- The names of the elements of graphics, as far as an element of HTML can have them. -/
def graphicNames : List Text :=
  ["a", "animate", "circle", "defs", "desc", "discard", "ellipse", "filter", "g", "image", "line", "marker",
   "mask", "metadata", "mpath", "path", "pattern", "polygon", "polyline", "rect", "script", "set", "stop",
   "style", "svg", "switch", "symbol", "text", "title", "tspan", "use", "view"]

/-- The names of the elements of mathematics. -/
def mathNames : List Text :=
  (["abs", "and", "annotation", "annotation-xml", "apply", "approx", "arccos", "arccosh", "arccot",
    "arccoth", "arccsc", "arccsch", "arcsec", "arcsech", "arcsin", "arcsinh", "arctan", "arctanh",
    "arg", "bind", "bvar", "card", "cartesianproduct", "cbytes", "ceiling", "cerror", "ci", "cn"] : List Text) ++
  (["codomain", "complexes", "compose", "condition", "conjugate", "cos", "cosh", "cot", "coth", "cs",
    "csc", "csch", "csymbol", "curl", "declare", "degree", "determinant", "diff", "divergence",
    "divide", "domain", "domainofapplication", "emptyset", "encoding", "eq", "equivalent", "eulergamma",
    "exists"] : List Text) ++
  (["exp", "exponentiale", "factorial", "factorof", "false", "floor", "fn", "forall", "function", "gcd",
    "geq", "grad", "gt", "ident", "image", "imaginary", "imaginaryi", "implies", "in", "infinity",
    "int", "integers", "intersect", "interval", "inverse", "lambda", "laplacian", "lcm"] : List Text) ++
  (["leq", "limit", "list", "ln", "log", "logbase", "lowlimit", "lt", "maction", "maligngroup",
    "malignmark", "math", "matrix", "matrixrow", "max", "mean", "median", "menclose", "merror",
    "mfenced", "mfrac", "mglyph", "mi", "min", "minus", "mlabeledtr", "mlongdiv", "mmultiscripts"] : List Text) ++
  (["mn", "mo", "mode", "moment", "momentabout", "mover", "mpadded", "mphantom", "mprescripts", "mroot",
    "mrow", "ms", "mscarries", "mscarry", "msgroup", "msline", "mspace", "msqrt", "msrow", "mstack",
    "mstyle", "msub", "msubsup", "msup", "mtable", "mtd", "mtext", "mtr"] : List Text) ++
  (["munder", "munderover", "naturalnumbers", "neq", "none", "not", "notanumber", "notin",
    "notprsubset", "notsubset", "or", "otherwise", "outerproduct", "partialdiff", "pi", "piece",
    "piecewise", "plus", "power", "primes", "product", "prsubset", "quotient", "rationals", "real",
    "reals", "reln", "rem"] : List Text) ++
  (["root", "scalarproduct", "sdev", "sec", "sech", "selector", "semantics", "sep", "set", "setdiff",
    "share", "sin", "sinh", "span", "subset", "sum", "tan", "tanh", "tendsto", "times", "transpose",
    "true", "union", "uplimit", "variance", "vector", "vectorproduct", "xor"] : List Text)

/-- The names of graphics and mathematics that are names of HTML as well. -/
def sharedNames : List Text := ["title", "style", "font", "a", "script", "span"]

/-- Is it a name that belongs to graphics or mathematics only? -/
def isForeignName (name : Text) : Bool := (name ∈ graphicNames || name ∈ mathNames) && name ∉ sharedNames

end Manuscript.Html.AllowList
