import Pyrs.Properties.MethodResolution
import Pyrs.Properties.AttributeCache
import Pyrs.Properties.CallSiteCache
import Pyrs.Properties.Hygiene
import Pyrs.Properties.RepeatedMatching
import Pyrs.Properties.Precedence
import Pyrs.Properties.DictDisciplines
import Pyrs.Properties.MarshalRoundTrip
import Pyrs.Properties.Collection
import Pyrs.Properties.StarHandling
import Pyrs.Properties.CompiledCode
import Pyrs.Properties.FrameReuse
import Pyrs.Properties.StackValidation
import Pyrs.Properties.MarshalSafety
import Pyrs.Properties.IndentTokens
import Pyrs.Properties.UnpicklingSafety
import Pyrs.Properties.Decompression
import Pyrs.Properties.CallArguments
import Pyrs.Properties.CsvRoundTrip
import Pyrs.Properties.JsonScanIndex
import Pyrs.Properties.CharacterClassMembership
import Pyrs.Properties.SetOperatorValues
import Pyrs.Properties.AugmentedAssignment
import Pyrs.Properties.CaptureRollback
import Pyrs.Properties.PatternCaptures
import Pyrs.Properties.ExceptionTableParsing
import Pyrs.Properties.LineTableSafety
import Pyrs.Properties.BigIntRadix
import Pyrs.Properties.PercentIntegers
import Pyrs.Properties.MathRounding
import Pyrs.Properties.WeightedChoices
import Pyrs.Properties.TemplateSegments
import Pyrs.Properties.RawStrings
import Pyrs.Properties.Calendar
import Pyrs.Properties.TextSplitting
import Pyrs.Properties.IteratorPayloads
import Pyrs.Properties.UnicodeEscapes
