import Manuscript.Text.Basic

/-!
The style sheet that every page shares, and the script that sets up the typesetting of mathematics.
-/

namespace Manuscript.Page

/-- The lines of the style sheet that every page shares. -/
def styleLines : List Text :=
  (["body \x7b",
    "  margin: 0 auto;",
    "  max-width: 46rem;",
    "  padding: 2rem 1.25rem 4rem;",
    "  background: var(--folio-bg);",
    "  color: var(--folio-fg);",
    "  font-family: \"Iowan Old Style\", \"Palatino Linotype\", Palatino, Georgia, serif;",
    "  line-height: 1.6;",
    "\x7d",
    "",
    "a \x7b",
    "  color: var(--folio-accent);",
    "  text-decoration: none;",
    "\x7d",
    "",
    "a:hover \x7b",
    "  text-decoration: underline;",
    "\x7d",
    "",
    "a.heading \x7b",
    "  color: inherit;",
    "\x7d",
    "",
    ".number \x7b"] : List Text) ++
  (["  color: var(--folio-muted);",
    "  margin-right: 0.35em;",
    "\x7d",
    "",
    ".unnumbered > h1 .number,",
    ".unnumbered > h2 .number \x7b",
    "  display: none;",
    "\x7d",
    "",
    ".intersentencespace::after \x7b",
    "  content: \" \";",
    "\x7d",
    "",
    ".figure,",
    ".table,",
    ".codelisting,",
    ".aside \x7b",
    "  margin: 1.5rem 0;",
    "\x7d",
    "",
    ".aside \x7b",
    "  background: var(--folio-aside-bg);",
    "  border: 1px solid var(--folio-border);",
    "  border-radius: 6px;"] : List Text) ++
  (["  padding: 0.75rem 1rem;",
    "\x7d",
    "",
    ".caption \x7b",
    "  color: var(--folio-muted);",
    "  font-size: 0.95em;",
    "  margin: 0.5rem 0;",
    "\x7d",
    "",
    ".caption .header \x7b",
    "  font-weight: 600;",
    "  margin-right: 0.5em;",
    "\x7d",
    "",
    ".equation \x7b",
    "  display: flex;",
    "  align-items: center;",
    "  justify-content: center;",
    "  overflow-x: auto;",
    "\x7d",
    "",
    ".equation_number \x7b",
    "  margin-left: auto;",
    "\x7d"] : List Text) ++
  (["",
    ".highlight,",
    "pre.verbatim \x7b",
    "  background: var(--folio-code-bg);",
    "  border-radius: 6px;",
    "  overflow-x: auto;",
    "  padding: 0.75rem 1rem;",
    "\x7d",
    "",
    ".highlight pre \x7b",
    "  margin: 0;",
    "\x7d",
    "",
    ".highlight .lineno \x7b",
    "  color: var(--folio-muted);",
    "  display: inline-block;",
    "  margin-right: 1em;",
    "  text-align: right;",
    "  user-select: none;",
    "  width: 2em;",
    "\x7d",
    "",
    ".highlight .hll \x7b",
    "  background: var(--folio-hll-bg);"] : List Text) ++
  (["  display: block;",
    "\x7d",
    "",
    "code.tt,",
    "pre \x7b",
    "  font-family: \"SFMono-Regular\", Menlo, Consolas, monospace;",
    "  font-size: 0.9em;",
    "\x7d",
    "",
    ".undefined_ref \x7b",
    "  color: var(--folio-error);",
    "  font-weight: 600;",
    "\x7d",
    "",
    ".inline_error \x7b",
    "  color: var(--folio-error);",
    "  font-family: monospace;",
    "\x7d",
    "",
    "sup.footnote a \x7b",
    "  font-size: 0.75em;",
    "\x7d",
    "",
    ".footnotes \x7b"] : List Text) ++
  (["  border-top: 1px solid var(--folio-border);",
    "  font-size: 0.9em;",
    "  margin-top: 2rem;",
    "  padding-top: 0.5rem;",
    "\x7d",
    "",
    "ol.footnotes.nonumbers \x7b",
    "  list-style: none;",
    "  padding-left: 0;",
    "\x7d",
    "",
    ".footnotes .arrow \x7b",
    "  margin-left: 0.25em;",
    "\x7d",
    "",
    "#table_of_contents ul \x7b",
    "  list-style: none;",
    "  padding-left: 1.25em;",
    "\x7d",
    "",
    "#table_of_contents > ul \x7b",
    "  padding-left: 0;",
    "\x7d"] : List Text)

/-- The style sheet that every page shares. -/
def style : Text := styleLines.flatMap fun line => line ++ ['\n']

/-- The lines of the script that sets up the typesetting of mathematics. -/
def mathLines : List Text :=
  (["window.MathJax = \x7b",
    "  tex: \x7b",
    "    inlineMath: [[\"\\\\(\", \"\\\\)\"]],",
    "    displayMath: [[\"\\\\[\", \"\\\\]\"]],",
    "    processEnvironments: true,",
    "    tags: \"ams\"",
    "  \x7d,",
    "  options: \x7b",
    "    skipHtmlTags: [\"script\", \"noscript\", \"style\", \"textarea\", \"pre\", \"code\"]",
    "  \x7d",
    "\x7d;"] : List Text)

/-- The script that sets up the typesetting of mathematics. -/
def mathScript : Text := mathLines.flatMap fun line => line ++ ['\n']

end Manuscript.Page
