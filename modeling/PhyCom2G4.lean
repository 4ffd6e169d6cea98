import PhyCom2G4.Asides
import PhyCom2G4.Blocking
import PhyCom2G4.Closing
import PhyCom2G4.Families
import PhyCom2G4.Frequencies
import PhyCom2G4.Halves
import PhyCom2G4.History
import PhyCom2G4.Interference
import PhyCom2G4.Levels
import PhyCom2G4.Modulations
import PhyCom2G4.Packets
import PhyCom2G4.Reevaluations
import PhyCom2G4.Refinement
import PhyCom2G4.Rounds
import PhyCom2G4.Sessions
import PhyCom2G4.Turns
import PhyCom2G4.Versions
