import Ldv.Perm.StackDiscipline
import Ldv.Capture.ReadLog
import Ldv.Perm.QueryIndex
import Ldv.Perm.ProvNodes
import Ldv.Sublink.UnnNot
import Ldv.Sublink.UnnResult
import Ldv.Sublink.LeftJoin
import Ldv.Sublink.SubList
import Ldv.Sublink.Sublevels
import Ldv.Perm.Placeholders
import Ldv.Copy.CaseConditions
import Ldv.Copy.EqualityClosure
import Ldv.Copy.SetRestructure
import Ldv.Capture.TableList
import Ldv.Capture.RestoreDb
import Ldv.Capture.RowLog
import Ldv.Trans.AnnotatedText
import Ldv.Trans.Mapping
