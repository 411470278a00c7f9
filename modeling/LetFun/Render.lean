import LetFun.Graph
import LetFun.Host
import LetFun.Text.LowerCase
/-!
# Drawings

A tree is drawn by a renderer in one of a fixed list of formats.  The format is
taken in any case of letters, but the renderer and the messages see it in lower
case.

Results:
* `job?_eq_ok_iff`: a job carries the lower-case format, which is a known one.
-/

namespace LetFun.Render

/-- The formats that the renderer knows, in order. -/
def formats : List String :=
  ["bmp", "canon", "cgimage", "cmap", "cmapx", "cmapx_np", "dot", "dot_json", "eps", "exr", "fig",
    "gd", "gd2", "gif", "gtk", "gv", "ico", "imap", "imap_np", "ismap", "jp2", "jpe", "jpeg",
    "jpg", "json", "json0", "pct", "pdf", "pic", "pict", "plain", "plain-ext", "png", "pov", "ps",
    "ps2", "psd", "sgi", "svg", "svg_inline", "svgz", "tga", "tif", "tiff", "tk", "vml", "vmlz",
    "vrml", "wbmp", "webp", "x11", "xdot", "xdot1.2", "xdot1.4", "xdot_json", "xlib"]

/-- Why a tree is not drawn. -/
inductive Failure where
  | unknownFormat (format : String)
  | renderer (reason : String)
deriving DecidableEq, Repr

def Failure.message : Failure → String
  | unknownFormat format =>
    "unknown format: " ++ Text.quoted format ++ " (must be one of [" ++
      ", ".intercalate (formats.map Text.quoted) ++ "])"
  | renderer reason => reason

/-- The job of drawing a tree. -/
def job? (e : Expr) (path format : String) : Except Failure Job :=
  let format := Text.lower format
  if formats.contains format then .ok ⟨path, format, e.dot⟩ else .error (.unknownFormat format)

theorem job?_eq_ok_iff {e : Expr} {path format : String} {job : Job} :
    job? e path format = .ok job ↔
      Text.lower format ∈ formats ∧ job = ⟨path, Text.lower format, e.dot⟩ := by
  simp only [job?]
  split
  · next h => simp_all [eq_comm]
  · next h => simp_all

/-- Has a tree drawn. Answers what was asked of the renderer, and whether the drawing was made. -/
def draw (host : Host) (e : Expr) (path format : String) :
    List Rendering × Except Failure Job :=
  match job? e path format with
  | .error failure => ([], .error failure)
  | .ok job =>
    match host.render job with
    | none => ([⟨job, none⟩], .ok job)
    | some reason => ([⟨job, some reason⟩], .error (.renderer reason))

end LetFun.Render
