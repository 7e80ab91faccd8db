/-
What a malformed line does to the rest of a log, for the four log parsers.

Apacheparser passes over a line that it reports; Clientparser, CJDBCparser and the second loop of Tomcatparser leave
their loop there. The lines are the strings that `fgets` returns (`CLib.readLines_flatten`: the lines of the file, where
they fit into the buffer).

- `bad_line_isolated_iff`: the three that leave their loop isolate the line exactly when nothing was to come, up to the
  next line that they report.

Witness: `goodStatement`, a line of the C-JDBC log, and a blank line.
-/
import Rubbos.Parsers.Clientparser
import Rubbos.Parsers.Apacheparser
import Rubbos.Parsers.CJDBCparser
import Rubbos.Parsers.Tomcatparser

namespace Rubbos.Parsers

open Rubbos.Core CLib

/-- the log parsers; Tomcat's with the table of the access log -/
inductive Tool where
  | client
  | apache
  | cjdbc
  | tomcat (table : List Tomcatparser.Request)

namespace Tool

/-- the buffers -/
def St : Tool → Type
  | .client => Clientparser.St
  | .apache => Apacheparser.St
  | .cjdbc => CJDBCparser.St
  | .tomcat _ => Tomcatparser.St

/-- what is written -/
def Rec : Tool → Type
  | .client => Record
  | .apache => Apacheparser.Record
  | .cjdbc => DBRecord
  | .tomcat _ => DBRecord

def parser : (tool : Tool) → LineParser tool.St Text tool.Rec
  | .client => Clientparser.parser
  | .apache => Apacheparser.parser
  | .cjdbc => CJDBCparser.parser
  | .tomcat table => Tomcatparser.servlets table

/-- only one of them goes on after an error -/
theorem stop_eq_false_iff (tool : Tool) : tool.parser.stop = false ↔ tool = .apache := by
  cases tool <;> simp [parser, Clientparser.parser, Apacheparser.parser, CJDBCparser.parser, Tomcatparser.servlets]

/-- **Malformed lines.** The records of a log with a line that is reported are those of the lines before it and those of
the lines behind it, exactly when the parser is Apache's, or no line behind it, up to the next one that is reported, gives
a record. -/
theorem bad_line_isolated_iff (tool : Tool) (xs ys : List Text) (bad : Text) (rx ry : List tool.Rec)
    (hbad : tool.parser.Reports bad) (hx : tool.parser.parse xs = some rx) (hy : tool.parser.parse ys = some ry) :
    tool.parser.parse (xs ++ bad :: ys) = some (rx ++ ry) ↔ tool = .apache ∨ tool.parser.SilentUpToError ys := by
  cases hstop : tool.parser.stop with
  | false =>
    have happ : tool = .apache := (stop_eq_false_iff tool).1 hstop
    simp [happ, LineParser.run_isolated hstop hbad hx hy]
  | true =>
    have happ : tool ≠ .apache := by
      intro h
      rw [(stop_eq_false_iff tool).2 h] at hstop
      cases hstop
    rw [LineParser.run_isolated_iff hstop hbad hx hy]
    simp [happ]

/-- a line of the C-JDBC log -/
def goodStatement : Text :=
  "SELECT /* 7 */ STimeStamp(ms)=1 ST(nano)=1 ET(nano)=4 DBST(nano)=2 DBET(nano)=3\n".toList

def goodRecord : DBRecord := ⟨['7'], ['1'], ['1'], ['1'], "SELECT".toList⟩

theorem parse_goodStatement : (parser .cjdbc).parse [goodStatement] = some [goodRecord] := by
  have h : CJDBCparser.parser.parse [goodStatement] = some [goodRecord] := by decide
  exact h

theorem reports_blank : (parser .cjdbc).Reports ['\n'] := ⟨_, rfl⟩

theorem bad_line_isolated_iff_last :
    (parser .cjdbc).parse ([goodStatement] ++ ['\n'] :: []) = some ([goodRecord] ++ []) ↔
      Tool.cjdbc = .apache ∨ (parser .cjdbc).SilentUpToError [] :=
  bad_line_isolated_iff .cjdbc [goodStatement] [] ['\n'] [goodRecord] [] reports_blank parse_goodStatement rfl

/-- a blank line before a good one: the good one is lost -/
theorem blank_line_suppresses_rest : ¬ ∀ (tool : Tool) (xs ys : List Text) (bad : Text) (rx ry : List tool.Rec),
    tool.parser.Reports bad → tool.parser.parse xs = some rx → tool.parser.parse ys = some ry →
    tool.parser.parse (xs ++ bad :: ys) = some (rx ++ ry) := by
  intro h
  have hlost := h .cjdbc [] [goodStatement] ['\n'] [] [goodRecord] reports_blank rfl parse_goodStatement
  have hstop : (parser .cjdbc).parse ([] ++ ['\n'] :: [goodStatement]) = some [] :=
    LineParser.run_stops rfl reports_blank rfl
  rw [hstop] at hlost
  cases hlost

end Tool

end Rubbos.Parsers
