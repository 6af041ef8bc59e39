import JavaTypes.Numeral
import JavaTypes.Platform
import JavaTypes.Proofs.ChartedSessions
import JavaTypes.Proofs.ClosureTies
import JavaTypes.Proofs.ComposedSubstitution
import JavaTypes.Proofs.DeclaredNames
import JavaTypes.Proofs.ErasedSubstitution
import JavaTypes.Proofs.ErasureAbove
import JavaTypes.Proofs.HierarchySearch
import JavaTypes.Proofs.LooseSameTypes
import JavaTypes.Proofs.ObjectAbove
import JavaTypes.Proofs.PartsGivenAgain
import JavaTypes.Proofs.PeekedHandles
import JavaTypes.Proofs.PlainSubtyping
import JavaTypes.Proofs.RankOrder
import JavaTypes.Proofs.RawMembers
import JavaTypes.Proofs.RepeatedQuestions
import JavaTypes.Proofs.ViewEquality
import JavaTypes.Text
